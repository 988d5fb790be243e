/-
The firmware updater under the OTA session, over many update attempts.

`embassy-boot` is a parameter.  What is relied on: a write that succeeds goes through
an erase cache that lives as long as the updater, and marking leaves the DFU
partition alone.  Nothing is assumed of a write that fails.
-/
import GarageDoor.App.Ota.Guarded
import GarageDoor.Core.Ota.Session.Recorded
import GarageDoor.Library.Nor

namespace GarageDoor
namespace Update

open Library Flash Ota

structure FirmwareUpdater (υ ε : Type) where
  writeFirmware : υ → Nat → List UInt8 → Except ε Unit × υ
  markUpdated : υ → Except ε Unit × υ
  dfu : υ → Nor
  dfu_writeFirmware : ∀ {u offset data u'}, writeFirmware u offset data = (.ok (), u') →
    dfu u' = (dfu u).write pageBytes offset data
  dfu_markUpdated : ∀ {u result u'}, markUpdated u = (result, u') → dfu u' = dfu u

/-- One update attempt: a body, and what is declared about it. -/
structure Attempt where
  ρ : Type
  ε : Type
  reader : BodyReader ρ ε
  body : ρ
  contentLength : Nat
  expected : Digest

section

variable {η υ φ ε : Type}

/-- OTA streaming adapter. -/
def FirmwareUpdater.flasher (U : FirmwareUpdater υ ε) : Flasher υ ε where
  write := U.writeFirmware
  markUpdated := U.markUpdated

def Attempt.run (sha : StreamingDigest η Digest) (F : Flasher φ ε) (a : Attempt) (f : φ) :
    Except (UpdateError ε a.ε) Unit × φ :=
  let (result, f, _) := applyUpdate sha F a.reader f a.body a.contentLength a.expected
  (result, f)

/-- The updater after some attempts, of any result. -/
def afterAttempts (sha : StreamingDigest η Digest) (F : Flasher φ ε) (f : φ)
    (attempts : List Attempt) : φ :=
  attempts.foldl (fun f a => (a.run sha F f).2) f

theorem Attempt.run_recorded (sha : StreamingDigest η Digest) (F : Flasher φ ε) (a : Attempt)
    (f : φ) :
    (a.run sha F f) =
      ((a.run sha F.recorded (f, [])).1, (a.run sha F.recorded (f, [])).2.1) := by
  have hforget := applyUpdate_forget sha (.recorded F) (.refl a.reader) (f, []) a.body
    a.contentLength a.expected
  simp only [Flasher.Over.recorded, BodyReader.Over.refl, id] at hforget
  simp only [Attempt.run, hforget]
  rfl

/-! ## The attempts of the task -/

/-- The checks of `ota_task`, one after the other on one updater. -/
def runChecks (sha : StreamingDigest η Digest) (F : Flasher φ ε) (version : Nat)
    (secrets : Secrets) (flasher : φ) (nets : List Network) : φ :=
  nets.foldl (fun f net => (checkAndUpdate sha F version secrets net f).flasher) flasher

/-- The attempt that streams the image of an accepted response. -/
def imageAttempt (d : Digest) (a : Answer) (s : Scratch) : Attempt where
  ρ := HttpBody
  ε := FetchError
  reader := httpBody
  body := { link := a.link, leftover := s.leftover.toList.take a.extra }
  contentLength := a.len
  expected := d

/-- A check does to the updater what at most one attempt does. -/
theorem checkAndUpdate_attempts (sha : StreamingDigest η Digest) (F : Flasher φ ε) (version : Nat)
    (secrets : Secrets) (net : Network) (flasher : φ) :
    ∃ attempts, (checkAndUpdate sha F version secrets net flasher).flasher =
      afterAttempts sha F flasher attempts := by
  rcases (checkAndUpdate_cases sha F version secrets net flasher).2 with
    ⟨result, -, hflasher⟩ | ⟨uri, connect, remote, d, a, s, peer, body, -, -, -, hrun⟩
  · exact ⟨[], hflasher⟩
  · refine ⟨[imageAttempt d a s], ?_⟩
    rw [hrun, applyImage_eq]
    rfl

/-- So what holds after any attempts holds after any checks. -/
theorem runChecks_attempts (sha : StreamingDigest η Digest) (F : Flasher φ ε) (version : Nat)
    (secrets : Secrets) (flasher : φ) (nets : List Network) :
    ∃ attempts, runChecks sha F version secrets flasher nets =
      afterAttempts sha F flasher attempts := by
  induction nets generalizing flasher with
  | nil => exact ⟨[], rfl⟩
  | cons net nets ih =>
    obtain ⟨first, hfirst⟩ := checkAndUpdate_attempts sha F version secrets net flasher
    obtain ⟨rest, hrest⟩ := ih (checkAndUpdate sha F version secrets net flasher).flasher
    refine ⟨first ++ rest, ?_⟩
    rw [runChecks, List.foldl_cons, ← runChecks, hrest, hfirst, afterAttempts, afterAttempts,
      afterAttempts, List.foldl_append]

/-! ## What an attempt leaves in flash -/

/-- While no write fails, the DFU partition is the image written over what was there. -/
theorem dfu_run (sha : StreamingDigest η Digest) (U : FirmwareUpdater υ ε) (a : Attempt) (u : υ) :
    let out := (a.run sha U.flasher.recorded (u, [])).2
    Accepting out.2 → InOrder a.contentLength out.2 →
      U.dfu out.1 = (U.dfu u).write pageBytes 0 (image out.2) := by
  refine applyUpdate_keeps sha U.flasher.recorded a.reader
    (P := fun s => Accepting s.2 → InOrder a.contentLength s.2 →
      U.dfu s.1 = (U.dfu u).write pageBytes 0 (image s.2)) ?_ ?_ a.body a.contentLength a.expected
    fun _ _ => rfl
  · intro s offset data ih haccepting hinOrder
    rcases hw : U.flasher.recorded.write s offset data with ⟨result, u', calls⟩
    obtain rfl : calls = _ := recorded_write hw
    have hwrite : U.writeFirmware s.1 offset data = (result, u') := by
      simp only [Flasher.recorded, Prod.mk.injEq] at hw
      exact Prod.ext hw.1 hw.2.1
    simp only [hw] at haccepting hinOrder ⊢
    cases result with
    | error e => exact absurd (by simp) (haccepting offset data e)
    | ok v =>
      obtain ⟨hbefore, hlast⟩ := eachAfter_snoc.mp hinOrder
      have hoffset := (hlast offset data (.ok v) rfl).1
      have hdfu := ih (fun o d e h => haccepting o d e (List.mem_append_left _ h)) hbefore
      rw [U.dfu_writeFirmware hwrite, hdfu, image_append, image_write_ok, Nor.write_append,
        hoffset, Nat.zero_add]
  · intro s ih haccepting hinOrder
    rcases hm : U.flasher.recorded.markUpdated s with ⟨result, u', calls⟩
    obtain rfl : calls = _ := recorded_mark hm
    have hmark : U.markUpdated s.1 = (result, u') := by
      simp only [Flasher.recorded, Prod.mk.injEq] at hm
      exact Prod.ext hm.1 hm.2.1
    simp only [hm] at haccepting hinOrder ⊢
    have hdfu := ih (fun o d e h => haccepting o d e (List.mem_append_left _ h))
      (eachAfter_snoc.mp hinOrder).1
    rw [U.dfu_markUpdated hmark, hdfu, image_append, image_mark, List.append_nil]

/-- After any attempts, an attempt that succeeds leaves its image in flash exactly when
it was not begun over the sector erased last, or the first sector already had the
bits. -/
theorem committed_iff (sha : StreamingDigest η Digest) (U : FirmwareUpdater υ ε) (u₀ : υ)
    (attempts : List Attempt) (last : Attempt)
    (hok : (last.run sha U.flasher.recorded
      (afterAttempts sha U.flasher u₀ attempts, [])).1 = .ok ()) :
    let before := U.dfu (afterAttempts sha U.flasher u₀ attempts)
    let out := (last.run sha U.flasher.recorded (afterAttempts sha U.flasher u₀ attempts, [])).2
    let streamed := image out.2
    let flashed := (U.dfu out.1).read 0 last.contentLength
    (flashed = streamed ∧ sha.hash flashed = last.expected) ↔
      (before.lastErased ≠ some 0 ∨
        ∀ i b, streamed[i]? = some b → i < pageBytes → before.cells i &&& b = b) := by
  generalize afterAttempts sha U.flasher u₀ attempts = u at hok ⊢
  have hdfu := dfu_run sha U last u
  obtain ⟨hinOrder, hends⟩ :=
    applyUpdate_ends sha U.flasher last.reader u last.body last.contentLength last.expected
  simp only [Attempt.run] at hok hdfu ⊢
  generalize applyUpdate sha U.flasher.recorded last.reader (u, []) last.body
    last.contentLength last.expected = out at hok hdfu hinOrder hends ⊢
  rw [hok] at hends
  cases hends with
  | @committed writes hcalls hwrites haccepting hlength hhash =>
    have himage : image out.2.1.2 = image writes := by
      rw [hcalls, image_append, image_mark, List.append_nil]
    have hdfu := hdfu (fun o d e h => by simp [hcalls, haccepting o d e] at h) hinOrder
    rw [hdfu, himage, ← hlength, ← Nor.read_write_zero_iff (by decide)]
    exact ⟨And.left, fun h => ⟨h, by rw [h, hhash]⟩⟩

end

/-! ## An attempt begun over the sector erased last -/

/-- An updater whose flash never fails. -/
def bareUpdater : FirmwareUpdater Nor Empty where
  writeFirmware s offset data := (.ok (), s.write pageBytes offset data)
  markUpdated s := (.ok (), s)
  dfu s := s
  dfu_writeFirmware := by
    intro s offset data s' h
    exact (congrArg Prod.snd h).symm
  dfu_markUpdated := by
    intro s result s' h
    exact (congrArg Prod.snd h).symm

def bareSink (s₀ : Nor) : Sink bareUpdater.flasher where
  Holds done s := s = s₀.write pageBytes 0 done
  written := by
    intro done s data s' hs h
    have hs' : s.write pageBytes done.length data = s' := congrArg Prod.snd h
    rw [← hs', hs, Nor.write_append, Nat.zero_add]
  failed := by
    intro done s data e
    exact e.elim
  marked := by
    intro done s result s' hs h
    have hs' : s = s' := congrArg Prod.snd h
    rw [← hs', hs]

/-- An attempt over a connection that sends `stream` and is closed. -/
def streamAttempt (stream : List UInt8) (contentLength : Nat) (expected : Digest) : Attempt where
  ρ := HttpBody
  ε := FetchError
  reader := httpBody
  body := { link := .connect (answering stream .closed wholesale), leftover := [] }
  contentLength := contentLength
  expected := expected

theorem streamAttempt_run {η : Type} (sha : StreamingDigest η Digest) (stream : List UInt8)
    (contentLength : Nat) (expected : Digest) (s : Nor) :
    (streamAttempt stream contentLength expected).run sha bareUpdater.flasher s =
      (streamResult sha contentLength expected stream none,
        s.write pageBytes 0 (streamImage contentLength stream)) := by
  have hbody : (httpDelivery (answering stream .closed wholesale) stream contentLength).At 0
      { link := .connect (answering stream .closed wholesale), leftover := [] } :=
    ⟨rfl, Nat.zero_le _, Nat.zero_add _, rfl, by simp [Transport.connect]⟩
  obtain ⟨-, ⟨e, -⟩ | ⟨hresult, hcells⟩⟩ :=
    applyUpdate_of_delivery sha (bareSink s) (httpDelivery _ stream contentLength)
      (show s = s.write pageBytes 0 [] from rfl) hbody expected
  · exact e.elim
  · exact Prod.ext hresult hcells

/-- The SHA-256 digest of `abc`. -/
def abcDigest : Digest :=
  #v[0xba, 0x78, 0x16, 0xbf, 0x8f, 0x01, 0xcf, 0xea, 0x41, 0x41, 0x40, 0xde, 0x5d, 0xae, 0x22, 0x23,
    0xb0, 0x03, 0x61, 0xa3, 0x96, 0x17, 0x7a, 0x9c, 0xb4, 0x10, 0xff, 0x61, 0xf2, 0x00, 0x15, 0xad]

/-- A digest that is that of SHA-256 on `abc`. -/
def agreeingOnAbc : StreamingDigest (List UInt8) Digest :=
  .ofTable [([97, 98, 99], abcDigest)] (.replicate 32 0)

def blank : Nor where
  cells _ := 255
  lastErased := none

theorem committed_iff_blank :
    let out := ((streamAttempt [97, 98, 99] 3 abcDigest).run agreeingOnAbc
      bareUpdater.flasher.recorded (blank, [])).2
    out.1.read 0 3 = image out.2 ∧ agreeingOnAbc.hash (out.1.read 0 3) = abcDigest := by
  have hrun := streamAttempt_run agreeingOnAbc [97, 98, 99] 3 abcDigest blank
  rw [Attempt.run_recorded, Prod.mk.injEq] at hrun
  exact (committed_iff agreeingOnAbc bareUpdater blank [] _ hrun.1).mpr (.inl (by decide))

/-- The first attempt breaks off in the first sector, the second succeeds without
erasing it, and a cleared bit stays cleared. -/
theorem stale_sector_committed :
    let first := streamAttempt [0] 3 abcDigest
    let last := streamAttempt [97, 98, 99] 3 abcDigest
    let before := afterAttempts agreeingOnAbc bareUpdater.flasher blank [first]
    (first.run agreeingOnAbc bareUpdater.flasher blank).1 = .error .tooShort ∧
      (last.run agreeingOnAbc bareUpdater.flasher before).1 = .ok () ∧
      (last.run agreeingOnAbc bareUpdater.flasher before).2.read 0 3 = [0, 98, 99] := by
  simp only [afterAttempts, List.foldl_cons, List.foldl_nil, streamAttempt_run]
  exact ⟨rfl, rfl, rfl⟩

end Update
end GarageDoor
