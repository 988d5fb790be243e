/-
A device in the field.

The deploy script publishes, the device polls, streams images into its DFU slot, and
resets, in any order.  What the connection delivers of an image is arbitrary, and a reset
in the middle of it leaves anything at all in the slot.
-/
import GarageDoor.App.Boot
import GarageDoor.App.Update
import GarageDoor.Deploy.Release

namespace GarageDoor
namespace Field

open Library Ascii Flash Ota Update
open Deploy (Site Reader)

abbrev Cells : Type := Nat → UInt8

def Cells.front (cells : Cells) (length : Nat) : List UInt8 := (List.range length).map cells

/-- The updater with the constructor that every boot calls: it has erased nothing yet. -/
structure Updater (υ ε : Type) extends FirmwareUpdater υ ε where
  new : Cells → υ
  dfu_new : ∀ cells, dfu (new cells) = { cells, lastErased := none }

structure World (υ : Type) where
  site : Site
  device : Boot.Device
  /-- The updater of this boot, with the DFU slot. -/
  updater : υ
  active : Cells

inductive Event where
  /-- A step of the deploy script. -/
  | script (event : Deploy.Event)
  /-- What the device does without the server. -/
  | own (event : Boot.Event)
  /-- The server answers the request for the version or for the checksum. -/
  | asked
  /-- An image is streamed to the end of its body, or until something fails. -/
  | download (answer : Answer) (scratch : Scratch)
  | reset
  /-- The MCU resets while an image is streamed. -/
  | torn (dfu : Cells)

/-- Events of a boot that neither ask the server nor reset. -/
def own : Boot.Event → Bool
  | .answered | .streamed _ | .markedUpdated _ | .reset => false
  | _ => true

section

variable {η υ ε : Type} (sha : StreamingDigest η Digest) (U : Updater υ ε)

/-- What the bootloader leaves in ACTIVE and in this DFU slot. -/
def slots (s : World υ) (dfu : Cells) : Cells × Cells :=
  if s.device.lifecycle.state = .swapPending ∨ s.device.lifecycle.state = .swapTesting then
    (dfu, s.active)
  else
    (s.active, dfu)

def reboot (s : World υ) (dfu : Cells) : Option (World υ × List Boot.Observation) :=
  (Boot.reset s.device).map fun (device, o) =>
    ({ s with device, updater := U.new (slots s dfu).2, active := (slots s dfu).1 }, o)

/-- The device goes on, with what it read from the server. -/
def World.go (s : World υ) (reader : Reader) :
    Option (Boot.Device × List Boot.Observation) → Option (World υ × List Boot.Observation) :=
  Option.map fun (device, o) => ({ s with device, site := { s.site with reader } }, o)

/-- The answer to the request that the device is at. -/
def ask (s : World υ) : Boot.Phase → Reader → Option (World υ × List Boot.Observation)
  | .checking .version, reader =>
    match Deploy.readVersion s.site.dir with
    | some remote =>
      s.go (.versioned remote) (Boot.react remote s.device s.device.phase .answered)
    | none => s.go reader (Boot.react 0 s.device s.device.phase .checkFailed)
  | .checking .sha, .versioned remote =>
    match Deploy.readExpected s.site.dir remote with
    | some expected =>
      s.go (.digested remote expected) (Boot.react remote s.device s.device.phase .answered)
    | none => s.go .idle (Boot.react 0 s.device s.device.phase .checkFailed)
  | _, _ => none

/-- Stream, verify and mark. -/
def download (s : World υ) (answer : Answer) (scratch : Scratch) :
    Boot.Phase → Reader → Option (World υ × List Boot.Observation)
  | .checking .image, .digested remote expected =>
    match (imageAttempt expected answer scratch).run sha U.flasher s.updater with
    | (.ok (), updater) =>
      (Boot.react remote s.device s.device.phase (.streamed answer.len)).bind fun (staged, _) =>
        { s with updater }.go .idle (Boot.react remote staged staged.phase (.markedUpdated true))
    | (.error _, updater) =>
      { s with updater }.go .idle (Boot.react 0 s.device s.device.phase .checkFailed)
  | _, _ => none

def react (s : World υ) : Event → Option (World υ × List Boot.Observation)
  | .script event => (Deploy.publish sha.hash s.site s.site.phase event).map fun site =>
      ({ s with site }, [])
  | .own event => if own event then s.go s.site.reader (Boot.react 0 s.device s.device.phase event)
    else none
  | .asked => ask s s.device.phase s.site.reader
  | .download answer scratch => download sha U s answer scratch s.device.phase s.site.reader
  | .reset => reboot U s (U.dfu s.updater).cells
  | .torn dfu => if s.device.phase = .checking .image then reboot U s dfu else none

/-- A device that leaves the factory with an image of this version. -/
def field (version : Nat) (image dfu : Cells) : Machine (World υ) Event Boot.Observation where
  start :=
    { site := Deploy.start, device := { lifecycle := .new version, phase := .starting },
      updater := U.new dfu, active := image }
  step := react sha U

/-- What the run is asked to keep to: versions deployed are new ones, nothing is streamed
over the image to go back to, and no image is begun over the sector that was erased last. -/
structure Admits (s : World υ) (e : Event) : Prop where
  bumped : ∀ event, e = .script event → Deploy.Bumped s.site event
  confirmed : (∃ answer scratch, e = .download answer scratch) ∨ (∃ dfu, e = .torn dfu) →
    s.device.lifecycle.state ≠ .swapTesting
  erases : (∃ answer scratch, e = .download answer scratch) → (U.dfu s.updater).lastErased ≠ some 0

end

end Field
end GarageDoor
