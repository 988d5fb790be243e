/-
Booting, the boot check and the bootloader.

`main` reads the boot state once, tests a freshly swapped image before it confirms it,
and hands the updater to the OTA task, which checks for an update at boot unless an
image was just reverted.  Between any two steps the MCU may reset.  The running image
is told by its version, and the server offers one version throughout.
-/
import GarageDoor.Core.Flash.Lifecycle
import GarageDoor.Core.Ota.Policy
import GarageDoor.Library.Trace

namespace GarageDoor
namespace Boot

open Library Flash

/-! ## The self-test -/

structure SelfTestSignals where
  relayOk : Bool
  reedOk : Bool
  networkOk : Bool
  deriving DecidableEq, Repr

inductive SelfTestDecision where
  | commit
  | revert
  deriving DecidableEq, Repr

/-- Hardware failures withhold the confirmation, a network outage does not. -/
def evaluate (signals : SelfTestSignals) : SelfTestDecision :=
  if signals.relayOk ∧ signals.reedOk then .commit else .revert

/-! ## The device -/

/-- The boot state as embassy-boot reports it: a swap is one until it is confirmed. -/
inductive State where
  | boot
  | swap
  | revert
  | dfuDetach
  deriving DecidableEq, Repr

def getState (s : UpdateStateMachine) : State :=
  match s.state with
  | .boot => .boot
  | .swapPending | .swapTesting => .swap
  | .revert => .revert
  | .dfuDetach => .dfuDetach

/-- How far `check_and_update` is. -/
inductive CheckStage where
  | version
  | sha
  | image
  | marking
  deriving DecidableEq, Repr

inductive Phase where
  /-- Before the boot state is read. -/
  | starting
  /-- A swapped image, about to read the hardware. -/
  | hardwareTest
  /-- A swapped image, waiting for the network. -/
  | networkTest (relayOk reedOk : Bool)
  /-- A swapped image in `mark_booted`. -/
  | confirming
  /-- In `run_check`. -/
  | checking (stage : CheckStage)
  /-- Awaiting `RESET_REQUEST_SIGNAL`. -/
  | waiting
  /-- In `sys_reset`. -/
  | resetting
  /-- In `revert_hang`. -/
  | hung
  | usb
  deriving DecidableEq, Repr

inductive Event where
  | started
  | hardwareRead (relayOk reedOk : Bool)
  | networkWaited (up : Bool)
  /-- `mark_booted` returned, with this success of the flash. -/
  | markedBooted (ok : Bool)
  /-- A response was accepted. -/
  | answered
  /-- The image was written in full. -/
  | streamed (sizeBytes : Nat)
  /-- `mark_updated` returned, with this success of the flash. -/
  | markedUpdated (ok : Bool)
  /-- The check ended early, by an error or with nothing to do. -/
  | checkFailed
  /-- `garagedoor/reset` was received. -/
  | resetRequested
  /-- The MCU resets, by `sys_reset` or the watchdog. -/
  | reset
  deriving DecidableEq, Repr

inductive Observation where
  | booted (action : BootAction) (version : Nat)
  | bootCheck
  | requestedCheck
  deriving DecidableEq, Repr

structure Device where
  lifecycle : UpdateStateMachine
  phase : Phase
  deriving DecidableEq, Repr

def spawnOta (d : Device) (bootCheckAllowed : Bool) : Device × List Observation :=
  if bootCheckAllowed then
    ({ d with phase := .checking .version }, [.bootCheck])
  else
    ({ d with phase := .waiting }, [])

/-- The boot disposition. -/
def start (d : Device) : Device × List Observation :=
  let isSwap := getState d.lifecycle == .swap
  let isRevert := getState d.lifecycle == .revert
  if isSwap then ({ d with phase := .hardwareTest }, []) else spawnOta d !isRevert

/-- The bootloader, and the image it boots. -/
def reset (d : Device) : Option (Device × List Observation) :=
  d.lifecycle.onReset.map fun (action, s) =>
    ({ lifecycle := s, phase := if action = .enterUsbBoot then .usb else .starting },
      [.booted action s.activeVersion])

def react (remote : Nat) (d : Device) : Phase → Event → Option (Device × List Observation)
  | .starting, .started => some (start d)
  | .hardwareTest, .hardwareRead relayOk reedOk =>
    if evaluate { relayOk, reedOk, networkOk := false } = .revert then
      some ({ d with phase := .hung }, [])
    else
      some ({ d with phase := .networkTest relayOk reedOk }, [])
  | .networkTest relayOk reedOk, .networkWaited up =>
    match evaluate { relayOk, reedOk, networkOk := up } with
    | .commit => some ({ d with phase := .confirming }, [])
    | .revert => some ({ d with phase := .hung }, [])
  | .confirming, .markedBooted ok =>
    -- An image that could not be confirmed keeps running.
    some (spawnOta { d with lifecycle := if ok then d.lifecycle.markBooted.2 else d.lifecycle }
      true)
  | .checking .version, .answered =>
    match Ota.decide d.lifecycle.activeVersion remote with
    | .skip => some ({ d with phase := .waiting }, [])
    | .update => some ({ d with phase := .checking .sha }, [])
  | .checking .sha, .answered => some ({ d with phase := .checking .image }, [])
  | .checking .image, .streamed sizeBytes =>
    match d.lifecycle.stageFirmware remote sizeBytes with
    | (.ok (), s) => some ({ lifecycle := s, phase := .checking .marking }, [])
    | (.error _, s) => some ({ lifecycle := s, phase := .waiting }, [])
  | .checking .marking, .markedUpdated ok =>
    if ok then
      match d.lifecycle.markUpdated with
      | (.ok (), s) => some ({ lifecycle := s, phase := .resetting }, [])
      | (.error _, s) => some ({ lifecycle := s, phase := .waiting }, [])
    else
      some ({ d with phase := .waiting }, [])
  | .checking _, .checkFailed => some ({ d with phase := .waiting }, [])
  | .waiting, .resetRequested => some ({ d with phase := .checking .version }, [.requestedCheck])
  | _, .reset => reset d
  | _, _ => none

/-- A device that runs `version`, confirmed, while the server offers `remote`. -/
def device (version remote : Nat) : Machine Device Event Observation where
  start := { lifecycle := .new version, phase := .starting }
  step d e := react remote d d.phase e

/-! ## What is promised -/

/-- At most one swap, its image rolled back by the next reset, and nothing but quiet boots
of the original after that. -/
structure Orderly (version : Nat) (before : List Observation) (o : Observation) : Prop where
  once : (∃ v, .booted .swappedAndBoot v ∈ before) → ∀ v, o ≠ .booted .swappedAndBoot v
  rolledBack : (∃ v, .booted .swappedAndBoot v ∈ before) →
    (∀ v, .booted .rolledBackAndBoot v ∉ before) → ∀ action v, o = .booted action v →
      o = .booted .rolledBackAndBoot version
  quiet : (∃ v, .booted .rolledBackAndBoot v ∈ before) → o = .booted .bootActive version

/-- After a rollback the device stays reverted, on the original. -/
structure NeverReinstalled (version : Nat) (d : Device) (os : List Observation) : Prop where
  orderly : EachAfter (Orderly version) os
  reverted : (∃ v, .booted .rolledBackAndBoot v ∈ os) →
    d.lifecycle.state = .revert ∧ d.lifecycle.activeVersion = version

/-! ## One step -/

/-- What a step other than a reset can do. -/
inductive Moves (remote : Nat) (d : Device) :
    Phase → Event → Device → List Observation → Prop where
  | started : Moves remote d .starting .started (start d).1 (start d).2
  | hardwareFailed {relayOk reedOk}
      (h : evaluate { relayOk, reedOk, networkOk := false } = .revert) :
      Moves remote d .hardwareTest (.hardwareRead relayOk reedOk) { d with phase := .hung } []
  | hardwarePassed {relayOk reedOk}
      (h : evaluate { relayOk, reedOk, networkOk := false } ≠ .revert) :
      Moves remote d .hardwareTest (.hardwareRead relayOk reedOk)
        { d with phase := .networkTest relayOk reedOk } []
  | passed {relayOk reedOk up} (h : evaluate { relayOk, reedOk, networkOk := up } = .commit) :
      Moves remote d (.networkTest relayOk reedOk) (.networkWaited up)
        { d with phase := .confirming } []
  | failed {relayOk reedOk up} (h : evaluate { relayOk, reedOk, networkOk := up } = .revert) :
      Moves remote d (.networkTest relayOk reedOk) (.networkWaited up) { d with phase := .hung } []
  | confirmed {ok} :
      Moves remote d .confirming (.markedBooted ok)
        { lifecycle := if ok then d.lifecycle.markBooted.2 else d.lifecycle,
          phase := .checking .version } [.bootCheck]
  | upToDate (h : Ota.decide d.lifecycle.activeVersion remote = .skip) :
      Moves remote d (.checking .version) .answered { d with phase := .waiting } []
  | newer (h : Ota.decide d.lifecycle.activeVersion remote = .update) :
      Moves remote d (.checking .version) .answered { d with phase := .checking .sha } []
  | digest : Moves remote d (.checking .sha) .answered { d with phase := .checking .image } []
  | staged {sizeBytes s} (h : Performs d.lifecycle (.stageFirmware remote sizeBytes) .ok s) :
      Moves remote d (.checking .image) (.streamed sizeBytes)
        { lifecycle := s, phase := .checking .marking } []
  | notStaged {sizeBytes} :
      Moves remote d (.checking .image) (.streamed sizeBytes) { d with phase := .waiting } []
  | marked {s} (h : Performs d.lifecycle .markUpdated .ok s) :
      Moves remote d (.checking .marking) (.markedUpdated true)
        { lifecycle := s, phase := .resetting } []
  | notMarked {ok} :
      Moves remote d (.checking .marking) (.markedUpdated ok) { d with phase := .waiting } []
  | ended {stage} :
      Moves remote d (.checking stage) .checkFailed { d with phase := .waiting } []
  | requested :
      Moves remote d .waiting .resetRequested { d with phase := .checking .version }
        [.requestedCheck]

def Checks (p : Phase) : Prop := (∃ stage, p = .checking stage) ∨ p = .waiting

/-- The original runs, or has marked its update and resets. -/
def OriginalAt (d : Device) : Prop :=
  d.lifecycle.state = .boot ∧ (d.phase = .starting ∨ Checks d.phase) ∨
    d.lifecycle.state = .swapPending ∧ d.phase = .resetting

/-- Where a trial image gets to that is not confirmed. -/
def TrialPhase (p : Phase) : Prop :=
  p = .starting ∨ p = .hardwareTest ∨ (∃ relayOk reedOk, p = .networkTest relayOk reedOk) ∨
    p = .confirming ∨ p = .hung ∨ p = .checking .version ∨ p = .waiting

/-- How far the run is: the original runs, its one update is on trial, or was reverted. -/
inductive Progress (version remote : Nat) (d : Device) (os : List Observation) : Prop where
  | original (hactive : d.lifecycle.activeVersion = version)
      (hstaged : ∀ v, d.lifecycle.stagedVersion = some v → v = remote)
      (hphase : OriginalAt d) (hswap : ∀ v, .booted .swappedAndBoot v ∉ os)
      (hroll : ∀ v, .booted .rolledBackAndBoot v ∉ os)
  | trial (hactive : d.lifecycle.activeVersion = remote)
      (hprevious : d.lifecycle.previousVersion = some version)
      (hstate : d.lifecycle.state = .swapTesting) (hphase : TrialPhase d.phase)
      (hswap : ∃ v, .booted .swappedAndBoot v ∈ os) (hroll : ∀ v, .booted .rolledBackAndBoot v ∉ os)
  | reverted (hactive : d.lifecycle.activeVersion = version) (hstate : d.lifecycle.state = .revert)
      (hphase : d.phase = .starting ∨ d.phase = .waiting)
      (hroll : ∃ v, .booted .rolledBackAndBoot v ∈ os)

section

variable {version remote : Nat} {d d' : Device} {os o : List Observation} {e : Event}

theorem moves_streamed (remote : Nat) (d : Device) (sizeBytes : Nat)
    (hs : react remote d (.checking .image) (.streamed sizeBytes) = some (d', o)) :
    Moves remote d (.checking .image) (.streamed sizeBytes) d' o := by
  have hperforms := performs_stageFirmware d.lifecycle remote sizeBytes
  simp only [react] at hs
  rcases hstage : d.lifecycle.stageFirmware remote sizeBytes with ⟨result | _, s⟩
  · rw [hstage] at hs hperforms
    cases hs
    cases hperforms
    exact .notStaged
  · rw [hstage] at hs hperforms
    cases hs
    exact .staged hperforms

theorem moves_marked (remote : Nat) (d : Device)
    (hs : react remote d (.checking .marking) (.markedUpdated true) = some (d', o)) :
    Moves remote d (.checking .marking) (.markedUpdated true) d' o := by
  have hperforms := performs_markUpdated d.lifecycle
  simp only [react, if_true] at hs
  rcases hmark : d.lifecycle.markUpdated with ⟨result | _, s⟩
  · rw [hmark] at hs hperforms
    cases hs
    cases hperforms
    exact .notMarked
  · rw [hmark] at hs hperforms
    cases hs
    exact .marked hperforms

theorem moves_of_react {p : Phase} (he : e ≠ .reset) (hs : react remote d p e = some (d', o)) :
    Moves remote d p e d' o := by
  unfold react at hs
  split at hs
  · have hmoves : Moves remote d .starting .started (start d).1 (start d).2 := .started
    rwa [Option.some.inj hs] at hmoves
  · split at hs
    · next hhung =>
      cases hs
      exact .hardwareFailed hhung
    · next hhung =>
      cases hs
      exact .hardwarePassed hhung
  · split at hs
    · next hevaluate =>
      cases hs
      exact .passed hevaluate
    · next hevaluate =>
      cases hs
      exact .failed hevaluate
  · cases hs
    exact .confirmed
  · split at hs
    · next hdecide =>
      cases hs
      exact .upToDate hdecide
    · next hdecide =>
      cases hs
      exact .newer hdecide
  · cases hs
    exact .digest
  · exact moves_streamed remote d _ hs
  · next ok =>
    cases ok with
    | false =>
      cases hs
      exact .notMarked
    | true => exact moves_marked remote d hs
  · cases hs
    exact .ended
  · cases hs
    exact .requested
  · exact absurd rfl he
  · cases hs

/-- A boot check is in order while nothing was rolled back. -/
theorem orderly_bootCheck (h : ∀ v, .booted .rolledBackAndBoot v ∉ os) :
    Orderly version os .bootCheck := by
  refine ⟨by simp, by simp, ?_⟩
  intro ⟨v, hv⟩
  exact absurd hv (h v)

theorem orderly_bootActive (h : (∀ v, .booted .swappedAndBoot v ∉ os) ∨
    ∃ v, .booted .rolledBackAndBoot v ∈ os) :
    Orderly version os (.booted .bootActive version) := by
  refine ⟨by simp, ?_, fun _ => rfl⟩
  intro ⟨v, hv⟩ hroll
  rcases h with h | ⟨w, hw⟩
  · exact absurd hv (h v)
  · exact absurd hw (hroll w)

/-- Whatever the device is at, the reset takes it one stage further at most. -/
theorem Progress.reset (h : Progress version remote d os) (hs : Boot.reset d = some (d', o)) :
    Progress version remote d' (os ++ o) ∧ (EachAfter (Orderly version) os →
      EachAfter (Orderly version) (os ++ o)) := by
  obtain ⟨⟨action, s⟩, hreset, heq⟩ := Option.map_eq_some_iff.mp hs
  cases heq
  have hperforms := performs_onReset hreset
  cases h with
  | original hactive hstaged hphase hswap hroll =>
    cases hperforms with
    | bootedActive hstate =>
      rcases hphase with ⟨hboot, -⟩ | ⟨hpending, -⟩
      · refine ⟨.original hactive hstaged (.inl ⟨hboot, .inl rfl⟩) ?_ ?_, fun hos =>
          eachAfter_snoc.mpr ⟨hos, ?_⟩⟩
        · simpa using hswap
        · simpa using hroll
        · rw [hactive]
          exact orderly_bootActive (.inl hswap)
      · simp [hpending] at hstate
    | @swapped v hstate hstagedv =>
      obtain rfl := hstaged v hstagedv
      refine ⟨.trial rfl (by rw [hactive]) rfl (.inl rfl) ⟨v, by simp⟩ (by simpa using hroll),
        fun hos => eachAfter_snoc.mpr ⟨hos, ?_⟩⟩
      refine ⟨?_, ?_, ?_⟩
      · intro ⟨v, hv⟩
        exact absurd hv (hswap v)
      · intro ⟨v, hv⟩
        exact absurd hv (hswap v)
      · intro ⟨v, hv⟩
        exact absurd hv (hroll v)
    | rolledBack hstate _ => rcases hphase with ⟨hboot, -⟩ | ⟨hpending, -⟩ <;> simp_all
    | enteredUsb hstate => rcases hphase with ⟨hboot, -⟩ | ⟨hpending, -⟩ <;> simp_all
  | trial hactive hprevious hstate hphase hswap hroll =>
    cases hperforms with
    | bootedActive hstate' => simp [hstate] at hstate'
    | swapped hstate' _ => simp [hstate] at hstate'
    | enteredUsb hstate' => simp [hstate] at hstate'
    | @rolledBack v hstate' hv =>
      obtain rfl : version = v := Option.some.inj (hprevious.symm.trans hv)
      refine ⟨.reverted rfl rfl (.inl rfl) ⟨version, by simp⟩,
        fun hos => eachAfter_snoc.mpr ⟨hos, ?_⟩⟩
      refine ⟨by simp, fun _ _ _ _ _ => rfl, ?_⟩
      intro ⟨v, hv⟩
      exact absurd hv (hroll v)
  | reverted hactive hstate hphase hroll =>
    cases hperforms with
    | swapped hstate' _ => simp [hstate] at hstate'
    | rolledBack hstate' _ => simp [hstate] at hstate'
    | enteredUsb hstate' => simp [hstate] at hstate'
    | bootedActive hstate' =>
      obtain ⟨v, hv⟩ := hroll
      refine ⟨.reverted hactive hstate (.inl rfl) ⟨v, List.mem_append_left _ hv⟩, fun hos =>
        eachAfter_snoc.mpr ⟨hos, ?_⟩⟩
      rw [hactive]
      exact orderly_bootActive (.inr ⟨v, hv⟩)

/-- A step of a check goes on with it, ends it, or marks the update. -/
theorem checking_step {stage : CheckStage} (hboot : d.lifecycle.state = .boot)
    (hs : Moves remote d (.checking stage) e d' o) :
    d'.lifecycle.activeVersion = d.lifecycle.activeVersion ∧
      (d'.lifecycle.stagedVersion = d.lifecycle.stagedVersion ∨
        d'.lifecycle.stagedVersion = some remote) ∧
      (d'.lifecycle.state = .boot ∧ Checks d'.phase ∨
        d'.lifecycle.state = .swapPending ∧ d'.phase = .resetting) ∧ o = [] := by
  cases hs with
  | upToDate => exact ⟨rfl, .inl rfl, .inl ⟨hboot, .inr rfl⟩, rfl⟩
  | newer => exact ⟨rfl, .inl rfl, .inl ⟨hboot, .inl ⟨_, rfl⟩⟩, rfl⟩
  | digest => exact ⟨rfl, .inl rfl, .inl ⟨hboot, .inl ⟨_, rfl⟩⟩, rfl⟩
  | staged h =>
    cases h with
    | staged => exact ⟨rfl, .inr rfl, .inl ⟨hboot, .inl ⟨_, rfl⟩⟩, rfl⟩
  | notStaged => exact ⟨rfl, .inl rfl, .inl ⟨hboot, .inr rfl⟩, rfl⟩
  | marked h =>
    cases h with
    | marked => exact ⟨rfl, .inl rfl, .inr ⟨rfl, rfl⟩, rfl⟩
  | notMarked => exact ⟨rfl, .inl rfl, .inl ⟨hboot, .inr rfl⟩, rfl⟩
  | ended => exact ⟨rfl, .inl rfl, .inl ⟨hboot, .inr rfl⟩, rfl⟩

/-- While the original runs, a step boots it, goes on with its check or marks the update. -/
theorem original_step (hboot : d.lifecycle.state = .boot)
    (hphase : d.phase = .starting ∨ Checks d.phase) (hrequest : e ≠ .resetRequested)
    (hs : Moves remote d d.phase e d' o) :
    d'.lifecycle.activeVersion = d.lifecycle.activeVersion ∧
      (d'.lifecycle.stagedVersion = d.lifecycle.stagedVersion ∨
        d'.lifecycle.stagedVersion = some remote) ∧
      OriginalAt d' ∧ (o = [] ∨ o = [.bootCheck]) := by
  rcases hphase with hphase | ⟨stage, hphase⟩ | hphase
  · rw [hphase] at hs
    cases hs
    have hstart : start d = ({ d with phase := .checking .version }, [.bootCheck]) := by
      simp [start, getState, hboot, spawnOta]
    rw [hstart]
    exact ⟨rfl, .inl rfl, .inl ⟨hboot, .inr (.inl ⟨_, rfl⟩)⟩, .inr rfl⟩
  · rw [hphase] at hs
    obtain ⟨hactive, hstaged, hnext, ho⟩ := checking_step hboot hs
    refine ⟨hactive, hstaged, ?_, .inl ho⟩
    exact hnext.imp (fun h => ⟨h.1, .inr h.2⟩) id
  · rw [hphase] at hs
    cases hs
    exact absurd rfl hrequest

/-- A trial image that is not confirmed tests itself, checks once and finds nothing newer. -/
theorem trial_step (hactive : d.lifecycle.activeVersion = remote)
    (hstate : d.lifecycle.state = .swapTesting) (hphase : TrialPhase d.phase)
    (hrequest : e ≠ .resetRequested) (hconfirm : e ≠ .markedBooted true)
    (hs : Moves remote d d.phase e d' o) :
    d'.lifecycle = d.lifecycle ∧ TrialPhase d'.phase ∧ (o = [] ∨ o = [.bootCheck]) := by
  rcases hphase with hphase | hphase | ⟨relayOk, reedOk, hphase⟩ | hphase | hphase | hphase | hphase
  all_goals rw [hphase] at hs
  · cases hs
    have hstart : start d = ({ d with phase := .hardwareTest }, []) := by
      simp [start, getState, hstate]
    rw [hstart]
    exact ⟨rfl, .inr (.inl rfl), .inl rfl⟩
  · cases hs with
    | hardwareFailed => exact ⟨rfl, by simp [TrialPhase], .inl rfl⟩
    | hardwarePassed => exact ⟨rfl, by simp [TrialPhase], .inl rfl⟩
  · cases hs with
    | passed => exact ⟨rfl, by simp [TrialPhase], .inl rfl⟩
    | failed => exact ⟨rfl, by simp [TrialPhase], .inl rfl⟩
  · cases hs with
    | @confirmed ok =>
      cases ok with
      | false => exact ⟨rfl, by simp [TrialPhase], .inr rfl⟩
      | true => exact absurd rfl hconfirm
  · cases hs
  · cases hs with
    | upToDate => exact ⟨rfl, by simp [TrialPhase], .inl rfl⟩
    | newer h => simp [Ota.decide, hactive] at h
    | ended => exact ⟨rfl, by simp [TrialPhase], .inl rfl⟩
  · cases hs
    exact absurd rfl hrequest

/-- After a rollback nothing is checked. -/
theorem reverted_step (hstate : d.lifecycle.state = .revert)
    (hphase : d.phase = .starting ∨ d.phase = .waiting) (hrequest : e ≠ .resetRequested)
    (hs : Moves remote d d.phase e d' o) :
    d'.lifecycle = d.lifecycle ∧ (d'.phase = .starting ∨ d'.phase = .waiting) ∧ o = [] := by
  rcases hphase with hphase | hphase
  · rw [hphase] at hs
    cases hs
    have hstart : start d = ({ d with phase := .waiting }, []) := by
      simp [start, getState, hstate, spawnOta]
    rw [hstart]
    exact ⟨rfl, .inr rfl, rfl⟩
  · rw [hphase] at hs
    cases hs
    exact absurd rfl hrequest

theorem progress_start (version remote : Nat) :
    Progress version remote (device version remote).start [] :=
  .original rfl (by simp [device, UpdateStateMachine.new]) (.inl ⟨rfl, .inl rfl⟩) (by simp)
    (by simp)

theorem Progress.step (h : Progress version remote d os) (hrequest : e ≠ .resetRequested)
    (hconfirm : e ≠ .markedBooted true) (hs : (device version remote).step d e = some (d', o)) :
    Progress version remote d' (os ++ o) ∧ (EachAfter (Orderly version) os →
      EachAfter (Orderly version) (os ++ o)) := by
  by_cases he : e = .reset
  · subst he
    refine h.reset ?_
    rw [← hs]
    show _ = react remote d d.phase .reset
    cases d.phase with
    | checking stage => cases stage <;> rfl
    | _ => rfl
  have hmoves : Moves remote d d.phase e d' o := moves_of_react he hs
  have hquiet : (∀ v, .booted .rolledBackAndBoot v ∉ os) → (o = [] ∨ o = [.bootCheck]) →
      EachAfter (Orderly version) os → EachAfter (Orderly version) (os ++ o) := by
    intro hroll ho hos
    rcases ho with rfl | rfl
    · rwa [List.append_nil]
    · exact eachAfter_snoc.mpr ⟨hos, orderly_bootCheck hroll⟩
  have hmem : ∀ action v, (o = [] ∨ o = [.bootCheck]) → .booted action v ∉ os →
      .booted action v ∉ os ++ o := by
    intro action v ho hnot
    rcases ho with rfl | rfl <;> simpa using hnot
  cases h with
  | original hactive hstaged hphase hswap hroll =>
    rcases hphase with ⟨hboot, hphase⟩ | ⟨hpending, hphase⟩
    · obtain ⟨hactive', hstaged', hphase', ho⟩ := original_step hboot hphase hrequest hmoves
      refine ⟨.original (hactive'.trans hactive) (fun v hv => ?_) hphase'
        (fun v => hmem _ v ho (hswap v)) (fun v => hmem _ v ho (hroll v)), hquiet hroll ho⟩
      rcases hstaged' with hstaged' | hstaged'
      · exact hstaged v (hstaged'.symm.trans hv)
      · exact (Option.some.inj (hstaged'.symm.trans hv)).symm
    · rw [hphase] at hmoves
      cases hmoves
  | trial hactive hprevious hstate hphase hswap hroll =>
    obtain ⟨hsame, hphase', ho⟩ := trial_step hactive hstate hphase hrequest hconfirm hmoves
    obtain ⟨v, hv⟩ := hswap
    exact ⟨.trial (hsame ▸ hactive) (hsame ▸ hprevious) (hsame ▸ hstate) hphase'
      ⟨v, List.mem_append_left _ hv⟩ (fun v => hmem _ v ho (hroll v)), hquiet hroll ho⟩
  | reverted hactive hstate hphase hroll =>
    obtain ⟨hsame, hphase', rfl⟩ := reverted_step hstate hphase hrequest hmoves
    rw [List.append_nil]
    exact ⟨.reverted (hsame ▸ hactive) (hsame ▸ hstate) hphase' hroll, id⟩

end

/-! ## Every run -/

/-- Whatever resets the device and wherever its checks fail: an image that is never confirmed
is swapped in once, rolled back by the next reset, and not asked for again. -/
theorem never_reinstalled {version remote : Nat} {es : List Event} {d : Device}
    {os : List Observation} (hrun : (device version remote).run es = some (d, os))
    (hconfirm : .markedBooted true ∉ es) (hrequest : .resetRequested ∉ es) :
    NeverReinstalled version d os := by
  have hinv : .markedBooted true ∉ es → .resetRequested ∉ es →
      Progress version remote d os ∧ EachAfter (Orderly version) os :=
    Machine.run_history
      (I := fun d es os => .markedBooted true ∉ es → .resetRequested ∉ es →
        Progress version remote d os ∧ EachAfter (Orderly version) os)
      (fun _ _ => ⟨progress_start version remote, eachAfter_nil _⟩)
      (fun {d es os e d' o} ih hs hconfirm hrequest => by
        simp only [List.mem_append, List.mem_singleton, not_or] at hconfirm hrequest
        obtain ⟨hprogress, horderly⟩ := ih hconfirm.1 hrequest.1
        obtain ⟨hprogress', hkeep⟩ :=
          hprogress.step (Ne.symm hrequest.2) (Ne.symm hconfirm.2) hs
        exact ⟨hprogress', hkeep horderly⟩) hrun
  obtain ⟨hprogress, horderly⟩ := hinv hconfirm hrequest
  refine ⟨horderly, ?_⟩
  intro ⟨v, hv⟩
  cases hprogress with
  | original _ _ _ _ hroll => exact absurd hv (hroll v)
  | trial _ _ _ _ _ hroll => exact absurd hv (hroll v)
  | reverted hactive hstate _ _ => exact ⟨hstate, hactive⟩

/-- Version 2 is installed over version 1, hangs in its self-test, and is gone. -/
theorem never_reinstalled_hung :
    NeverReinstalled 1
      { lifecycle := { state := .revert, activeVersion := 1, stagedVersion := some 2,
                       previousVersion := none },
        phase := .waiting }
      [.bootCheck, .booted .swappedAndBoot 2, .booted .rolledBackAndBoot 1,
        .booted .bootActive 1] :=
  @never_reinstalled 1 2
    [.started, .answered, .answered, .streamed 4096, .markedUpdated true, .reset, .started,
      .hardwareRead false true, .reset, .started, .reset, .started]
    _ _ rfl (by decide) (by decide)

end Boot
end GarageDoor
