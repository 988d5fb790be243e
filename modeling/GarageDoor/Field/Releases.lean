/-
What runs in the field are releases.

Both slots are followed through every step: what is in ACTIVE is what its version says,
and while an image is on trial the one to go back to is in the DFU slot.
-/
import GarageDoor.Field

namespace GarageDoor
namespace Field

open Library Ascii Flash Ota Update
open Deploy (Build Reader Sound)

/-- The slot holds what the device was made with, or a published release of this version. -/
def Genuine (hash : List UInt8 → Digest) (factory : Nat × Cells) (history : List Build)
    (version : Nat) (cells : Cells) : Prop :=
  version = factory.1 ∧ cells = factory.2 ∨
    ∃ b ∈ history, b.version = numeral version ∧
      ∃ length ≤ activeBytes, hash (cells.front length) = hash b.image

section

variable {η υ ε : Type} {sha : StreamingDigest η Digest} {U : Updater υ ε}
  {factory : Nat × Cells} {history : List Build} {version : Nat} {cells : Cells}

theorem Genuine.mono (h : Genuine sha.hash factory history version cells) {later : List Build}
    (hsub : ∀ b ∈ history, b ∈ later) : Genuine sha.hash factory later version cells := by
  rcases h with h | ⟨b, hb, hrest⟩
  · exact .inl h
  · exact .inr ⟨b, hsub b hb, hrest⟩

variable (sha U factory) in
structure Kept (s : World υ) : Prop where
  site : Sound sha.hash s.site
  active : Genuine sha.hash factory s.site.history s.device.lifecycle.activeVersion s.active
  pending : s.device.lifecycle.state = .swapPending → s.device.phase = .resetting ∧
    ∃ v, s.device.lifecycle.stagedVersion = some v ∧
      Genuine sha.hash factory s.site.history v (U.dfu s.updater).cells
  trial : s.device.lifecycle.state = .swapTesting →
    ∃ v, s.device.lifecycle.previousVersion = some v ∧
      Genuine sha.hash factory s.site.history v (U.dfu s.updater).cells

/-! ## An image in the slot -/

theorem read_zero (s : Nor) (length : Nat) : s.read 0 length = Cells.front s.cells length := by
  simp only [Nor.read, Cells.front, Nat.zero_add]

/-- An attempt that succeeds leaves in the slot what has the digest it was given, if it was
not begun over the sector erased last. -/
theorem front_of_run {a : Attempt} {u u' : υ} (hfresh : (U.dfu u).lastErased ≠ some 0)
    (h : a.run sha U.flasher u = (.ok (), u')) :
    a.contentLength ≤ activeBytes ∧
      sha.hash (Cells.front (U.dfu u').cells a.contentLength) = a.expected := by
  rw [Attempt.run_recorded] at h
  have hdfu := dfu_run sha U.toFirmwareUpdater a u
  obtain ⟨hinOrder, hends⟩ :=
    applyUpdate_ends sha U.flasher a.reader u a.body a.contentLength a.expected
  have hfits : ¬ activeBytes < a.contentLength := by
    intro hsize
    have hrun : (a.run sha U.flasher.recorded (u, [])).1 =
        .error (.oversize a.contentLength activeBytes) := by
      simp only [Attempt.run, applyUpdate, if_pos hsize]
    rw [hrun] at h
    cases h
  simp only [Attempt.run] at h hdfu
  generalize applyUpdate sha U.flasher.recorded a.reader (u, []) a.body a.contentLength
    a.expected = out at h hdfu hinOrder hends
  obtain ⟨hok, hu⟩ := Prod.mk.inj h
  rw [hok] at hends
  cases hends with
  | @committed writes hcalls hwrites haccepting hlength hhash =>
    have himage : image out.2.1.2 = image writes := by
      rw [hcalls, image_append, image_mark, List.append_nil]
    have hdfu := hdfu (fun o d e hmem => by simp [hcalls, haccepting o d e] at hmem) hinOrder
    rw [hu, himage] at hdfu
    refine ⟨Nat.not_lt.mp hfits, ?_⟩
    rw [← read_zero, hdfu, ← hlength, (Nor.read_write_zero_iff (by decide)).mpr (.inl hfresh),
      hhash]

/-! ## One step -/

section

variable {s s' : World υ} {d d' : Boot.Device} {e : Boot.Event} {o : List Boot.Observation}
  {reader : Reader}

theorem Kept.script {site : Deploy.Site} {event : Deploy.Event} (h : Kept sha U factory s)
    (hbumped : Deploy.Bumped s.site event)
    (hs : Deploy.publish sha.hash s.site s.site.phase event = some site) :
    Kept sha U factory { s with site } := by
  have hmoves := Deploy.publishes_of_publish hs
  have hmono := Deploy.history_mono hmoves
  refine ⟨h.site.publishes hbumped hmoves, h.active.mono hmono, fun hstate => ?_,
    fun hstate => ?_⟩
  · obtain ⟨hphase, v, hstaged, hgenuine⟩ := h.pending hstate
    exact ⟨hphase, v, hstaged, hgenuine.mono hmono⟩
  · obtain ⟨v, hprevious, hgenuine⟩ := h.trial hstate
    exact ⟨v, hprevious, hgenuine.mono hmono⟩

theorem Sound.follow {hash : List UInt8 → Digest} {site : Deploy.Site} (h : Sound hash site)
    (hreader : Deploy.Follows hash site.history reader) : Sound hash { site with reader } :=
  ⟨h.records, h.fresh, h.progress, h.todo, hreader⟩

/-- A step without the server keeps what is in the slots, or confirms it. -/
theorem own_step (hown : own e = true) (hs : Boot.react 0 d d.phase e = some (d', o)) :
    d.phase ≠ .resetting ∧ d'.lifecycle.activeVersion = d.lifecycle.activeVersion ∧
      (d'.lifecycle = d.lifecycle ∨ d'.lifecycle.state = .boot) := by
  have hmoves := Boot.moves_of_react (by rintro rfl; cases hown) hs
  generalize d.phase = p at hmoves
  cases hmoves with
  | started =>
    have hstart : (Boot.start d).1.lifecycle = d.lifecycle := by
      simp only [Boot.start, Boot.spawnOta]
      split
      · rfl
      · split <;> rfl
    exact ⟨by simp, by rw [hstart], .inl hstart⟩
  | @confirmed ok =>
    cases ok with
    | false => exact ⟨by simp, rfl, .inl rfl⟩
    | true =>
      have hperforms := performs_markBooted d.lifecycle
      simp only [if_true]
      generalize d.lifecycle.markBooted = out at hperforms ⊢
      obtain ⟨result, after⟩ := out
      cases result with
      | error message =>
        cases hperforms
        exact ⟨by simp, rfl, .inl rfl⟩
      | ok _ =>
        cases hperforms
        exact ⟨by simp, rfl, .inr rfl⟩
  | hardwareFailed | hardwarePassed | passed | failed | ended | requested =>
    exact ⟨by simp, rfl, .inl rfl⟩
  | upToDate | newer | digest | staged | notStaged | marked | notMarked => cases hown

/-- The device goes on in a step that leaves the slots alone. -/
theorem Kept.go (h : Kept sha U factory s)
    (hreader : Deploy.Follows sha.hash s.site.history reader)
    (hphase : s.device.phase ≠ .resetting)
    (hactive : d.lifecycle.activeVersion = s.device.lifecycle.activeVersion)
    (hlifecycle : d.lifecycle = s.device.lifecycle ∨ d.lifecycle.state = .boot) :
    Kept sha U factory { s with device := d, site := { s.site with reader } } := by
  refine ⟨Sound.follow h.site hreader, hactive ▸ h.active, fun hstate => ?_, fun hstate => ?_⟩
  · rcases hlifecycle with hsame | hboot
    · exact absurd (h.pending (hsame ▸ hstate)).1 hphase
    · exact absurd (hboot.symm.trans hstate) (by decide)
  · rcases hlifecycle with hsame | hboot
    · have htrial := h.trial (hsame ▸ hstate)
      rwa [← hsame] at htrial
    · exact absurd (hboot.symm.trans hstate) (by decide)

theorem Kept.own (h : Kept sha U factory s) (hown : Field.own e = true)
    (hreader : Deploy.Follows sha.hash s.site.history reader)
    (hs : s.go reader (Boot.react 0 s.device s.device.phase e) = some (s', o)) :
    Kept sha U factory s' := by
  obtain ⟨⟨d, o'⟩, hreact, heq⟩ := Option.map_eq_some_iff.mp hs
  cases heq
  obtain ⟨hphase, hactive, hlifecycle⟩ := own_step hown hreact
  exact h.go hreader hphase hactive hlifecycle

theorem Kept.stopped (h : Kept sha U factory s)
    (hs : s.go .idle (Boot.react 0 s.device s.device.phase .checkFailed) = some (s', o)) :
    Kept sha U factory s' := h.own rfl (show Deploy.Follows _ _ .idle from trivial) hs

theorem Kept.answered {remote : Nat} (h : Kept sha U factory s)
    (hphase : s.device.phase = .checking .version ∨ s.device.phase = .checking .sha)
    (hreader : Deploy.Follows sha.hash s.site.history reader)
    (hs : s.go reader (Boot.react remote s.device s.device.phase .answered) = some (s', o)) :
    Kept sha U factory s' := by
  obtain ⟨⟨d, o'⟩, hreact, heq⟩ := Option.map_eq_some_iff.mp hs
  cases heq
  have hmoves := Boot.moves_of_react (by decide) hreact
  have hresetting : s.device.phase ≠ .resetting := by
    rcases hphase with hphase | hphase <;> simp [hphase]
  refine h.go hreader hresetting ?_ (.inl ?_)
  all_goals
    rcases hphase with hphase | hphase
    all_goals
      rw [hphase] at hmoves
      cases hmoves <;> rfl

theorem Kept.ask (h : Kept sha U factory s)
    (hs : ask s s.device.phase s.site.reader = some (s', o)) : Kept sha U factory s' := by
  have hfollows := h.site.reader
  generalize hphase : s.device.phase = p at hs
  generalize s.site.reader = reader at hs hfollows
  unfold Field.ask at hs
  split at hs
  · split at hs
    · next remote hread =>
      obtain ⟨b, hb, hversion⟩ := Deploy.readVersion_eq h.site.records hread
      have hnext : Deploy.Follows sha.hash s.site.history (.versioned remote) :=
        ⟨b, List.mem_of_getLast? hb, hversion⟩
      exact h.answered (.inl hphase) hnext hs
    · exact h.own rfl hfollows hs
  · next remote =>
    obtain ⟨b, hmem, hversion⟩ := hfollows
    split at hs
    · next expected hread =>
      have hnext : Deploy.Follows sha.hash s.site.history (.digested remote expected) :=
        ⟨b, hmem, hversion, Deploy.readExpected_eq h.site.records hmem hversion hread⟩
      exact h.answered (.inr hphase) hnext hs
    · exact h.stopped hs
  · cases hs

/-- The slot may be anything while it holds neither an update nor an image to go back to. -/
theorem Kept.rewritten (h : Kept sha U factory s) (updater : υ)
    (hpending : s.device.lifecycle.state ≠ .swapPending)
    (htrial : s.device.lifecycle.state ≠ .swapTesting) :
    Kept sha U factory { s with updater } :=
  ⟨h.site, h.active, fun hstate => absurd hstate hpending, fun hstate => absurd hstate htrial⟩

theorem Kept.download {answer : Answer} {scratch : Scratch} (h : Kept sha U factory s)
    (htrial : s.device.lifecycle.state ≠ .swapTesting)
    (hfresh : (U.dfu s.updater).lastErased ≠ some 0)
    (hs : download sha U s answer scratch s.device.phase s.site.reader = some (s', o)) :
    Kept sha U factory s' := by
  have hfollows := h.site.reader
  generalize hphase : s.device.phase = p at hs
  generalize s.site.reader = reader at hs hfollows
  unfold Field.download at hs
  split at hs
  · next remote expected =>
    obtain ⟨b, hmem, hversion, hexpected⟩ := hfollows
    have hpending : s.device.lifecycle.state ≠ .swapPending := by
      intro hstate
      simpa [hphase] using (h.pending hstate).1
    split at hs
    · next updater hrun =>
      obtain ⟨hfits, hhash⟩ := front_of_run hfresh hrun
      have hgenuine : Genuine sha.hash factory s.site.history remote (U.dfu updater).cells :=
        .inr ⟨b, hmem, hversion, answer.len, hfits, hhash.trans hexpected⟩
      have hsite : Sound sha.hash { s.site with reader := .idle } := Sound.follow h.site trivial
      obtain ⟨⟨staged, o₁⟩, hstage, hs⟩ := Option.bind_eq_some_iff.mp hs
      obtain ⟨⟨d, o'⟩, hmark, heq⟩ := Option.map_eq_some_iff.mp hs
      cases heq
      have hstage := Boot.moves_of_react (by simp) hstage
      have hmark := Boot.moves_of_react (by decide) hmark
      rw [hphase] at hstage
      cases hstage with
      | staged hstaged =>
        cases hstaged
        cases hmark with
        | marked hmarked =>
          cases hmarked
          exact ⟨hsite, h.active, fun _ => ⟨rfl, remote, rfl, hgenuine⟩, nofun⟩
        | notMarked =>
          exact ⟨hsite, h.active, fun hstate => absurd hstate hpending,
            fun hstate => absurd hstate htrial⟩
      | notStaged => cases hmark
    · next updater hrun =>
      exact (h.rewritten updater hpending htrial).stopped hs
  · cases hs

theorem slots_swapped {dfu : Cells}
    (h : s.device.lifecycle.state = .swapPending ∨ s.device.lifecycle.state = .swapTesting) :
    slots s dfu = (dfu, s.active) := if_pos h

theorem slots_left {dfu : Cells} (hpending : s.device.lifecycle.state ≠ .swapPending)
    (htrial : s.device.lifecycle.state ≠ .swapTesting) : slots s dfu = (s.active, dfu) :=
  if_neg (not_or.mpr ⟨hpending, htrial⟩)

theorem Kept.reboot {dfu : Cells} (h : Kept sha U factory s)
    (hdfu : s.device.lifecycle.state = .swapPending ∨ s.device.lifecycle.state = .swapTesting →
      dfu = (U.dfu s.updater).cells) (hs : reboot U s dfu = some (s', o)) :
    Kept sha U factory s' := by
  obtain ⟨⟨d, o'⟩, hreset, heq⟩ := Option.map_eq_some_iff.mp hs
  obtain ⟨⟨action, lifecycle⟩, honReset, hdevice⟩ := Option.map_eq_some_iff.mp hreset
  have hperforms := performs_onReset honReset
  cases hdevice
  cases heq
  cases hperforms with
  | @swapped v hstate hstaged =>
    obtain ⟨-, v', hstaged', hgenuine⟩ := h.pending hstate
    obtain rfl : v = v' := Option.some.inj (hstaged.symm.trans hstaged')
    rw [slots_swapped (.inl hstate), hdfu (.inl hstate)]
    refine ⟨h.site, hgenuine, nofun, fun _ => ⟨_, rfl, ?_⟩⟩
    rw [U.dfu_new]
    exact h.active
  | @rolledBack v hstate hprevious =>
    obtain ⟨v', hprevious', hgenuine⟩ := h.trial hstate
    obtain rfl : v = v' := Option.some.inj (hprevious.symm.trans hprevious')
    rw [slots_swapped (.inr hstate), hdfu (.inr hstate)]
    exact ⟨h.site, hgenuine, nofun, nofun⟩
  | bootedActive hstate =>
    have hpending : s.device.lifecycle.state ≠ .swapPending := by
      rcases hstate with hstate | hstate <;> simp [hstate]
    have htrial : s.device.lifecycle.state ≠ .swapTesting := by
      rcases hstate with hstate | hstate <;> simp [hstate]
    rw [slots_left hpending htrial]
    exact ⟨h.site, h.active, fun hat => absurd hat hpending, fun hat => absurd hat htrial⟩
  | enteredUsb hstate =>
    have hpending : s.device.lifecycle.state ≠ .swapPending := by simp [hstate]
    have htrial : s.device.lifecycle.state ≠ .swapTesting := by simp [hstate]
    rw [slots_left hpending htrial]
    exact ⟨h.site, h.active, fun hat => absurd hat hpending, fun hat => absurd hat htrial⟩

theorem Kept.step {e : Event} (h : Kept sha U factory s) (hadmits : Admits U s e)
    (hs : react sha U s e = some (s', o)) : Kept sha U factory s' := by
  cases e with
  | script event =>
    obtain ⟨site, hpublish, heq⟩ := Option.map_eq_some_iff.mp hs
    cases heq
    exact h.script (hadmits.bumped event rfl) hpublish
  | own event =>
    simp only [react] at hs
    split at hs
    · next hown => exact h.own hown h.site.reader hs
    · cases hs
  | asked => exact h.ask hs
  | download answer scratch =>
    exact h.download (hadmits.confirmed (.inl ⟨answer, scratch, rfl⟩))
      (hadmits.erases ⟨answer, scratch, rfl⟩) hs
  | reset => exact h.reboot (fun _ => rfl) hs
  | torn dfu =>
    simp only [react] at hs
    split at hs
    · next hphase =>
      refine h.reboot ?_ hs
      rintro (hstate | hstate)
      · simpa [hphase] using (h.pending hstate).1
      · exact absurd hstate (hadmits.confirmed (.inr ⟨dfu, rfl⟩))
    · cases hs

end

/-! ## Whole runs -/

section

variable {factoryVersion : Nat} {factoryImage dfu : Cells} {es : List Event} {s : World υ}
  {os : List Boot.Observation}

/-- Events that ask nothing of a run. -/
def quiet : Event → Bool
  | .script (.deploy _) | .download _ _ | .torn _ => false
  | _ => true

end

end

/-! ## A release on trial -/

def bare : Updater Nor Empty where
  toFirmwareUpdater := bareUpdater
  new cells := { cells, lastErased := none }
  dfu_new _ := rfl

def scratch : Scratch := { leftover := Vector.replicate readChunk 0, log := [] }

abbrev plain : Machine (World Nor) Event Boot.Observation :=
  field Deploy.digests bare 4 (fun _ => 0) (fun _ => 255)

end Field
end GarageDoor
