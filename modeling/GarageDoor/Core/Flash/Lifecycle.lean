/-
The lifecycle of an update, as the pure model of embassy-boot has it.

Calls are recorded with what they return, so that a property of a run is a property
of its calls.  A call that would panic has no step.
-/
import GarageDoor.Core.Flash
import GarageDoor.Library.Machine

namespace GarageDoor
namespace Flash

open Library

inductive UpdateState where
  | boot
  /-- An update is staged and marked for the swap. -/
  | swapPending
  /-- The trial image runs and is not confirmed. -/
  | swapTesting
  /-- The trial image was rolled back. -/
  | revert
  | dfuDetach
  deriving DecidableEq, Repr

inductive BootAction where
  | bootActive
  | swappedAndBoot
  | rolledBackAndBoot
  | enterUsbBoot
  deriving DecidableEq, Repr

structure UpdateStateMachine where
  state : UpdateState
  activeVersion : Nat
  stagedVersion : Option Nat
  previousVersion : Option Nat
  deriving DecidableEq, Repr

def canFitInActive (binarySize : Nat) : Bool := binarySize ≤ activeBytes

namespace UpdateStateMachine

def new (initialVersion : Nat) : UpdateStateMachine :=
  { state := .boot, activeVersion := initialVersion, stagedVersion := none,
    previousVersion := none }

def stageFirmware (s : UpdateStateMachine) (version sizeBytes : Nat) :
    Except String Unit × UpdateStateMachine :=
  if ¬ canFitInActive sizeBytes then
    (.error "firmware binary exceeds active partition capacity", s)
  else
    (.ok (), { s with stagedVersion := some version })

def markUpdated (s : UpdateStateMachine) : Except String Unit × UpdateStateMachine :=
  if s.stagedVersion.isNone then
    (.error "cannot mark updated without staged firmware", s)
  else if s.state = .swapTesting then
    (.error "cannot mark updated while unconfirmed swap is pending verification", s)
  else
    (.ok (), { s with state := .swapPending })

def markBooted (s : UpdateStateMachine) : Except String Unit × UpdateStateMachine :=
  match s.state with
  | .swapTesting | .boot | .revert =>
    (.ok (), { s with state := .boot, previousVersion := none, stagedVersion := none })
  | .swapPending => (.error "cannot mark booted while update is pending reboot swap", s)
  | .dfuDetach => (.error "cannot mark booted in DFU detach state", s)

def markDfu (s : UpdateStateMachine) : UpdateStateMachine := { s with state := .dfuDetach }

/-- `none` where an `expect` fails. -/
def onReset (s : UpdateStateMachine) : Option (BootAction × UpdateStateMachine) :=
  match s.state with
  | .boot => some (.bootActive, s)
  | .swapPending =>
    match s.stagedVersion with
    | none => none
    | some newActive =>
      some (.swappedAndBoot,
        { state := .swapTesting, activeVersion := newActive, stagedVersion := none,
          previousVersion := some s.activeVersion })
  | .swapTesting =>
    match s.previousVersion with
    | none => none
    | some rollback =>
      some (.rolledBackAndBoot,
        { state := .revert, activeVersion := rollback, stagedVersion := some s.activeVersion,
          previousVersion := none })
  | .revert => some (.bootActive, s)
  | .dfuDetach => some (.enterUsbBoot, s)

end UpdateStateMachine

/-! ## Sequences of operations -/

inductive Op where
  | stageFirmware (version sizeBytes : Nat)
  | markUpdated
  | markBooted
  | markDfu
  | onReset
  deriving DecidableEq, Repr

inductive Outcome where
  | ok
  | err (message : String)
  | booted (action : BootAction)
  deriving DecidableEq, Repr

def Outcome.of : Except String Unit → Outcome
  | .ok () => .ok
  | .error message => .err message

/-- A call, what it returned and the machine after it. -/
structure Call where
  op : Op
  outcome : Outcome
  after : UpdateStateMachine
  deriving DecidableEq, Repr

def perform (s : UpdateStateMachine) : Op → Option (Outcome × UpdateStateMachine)
  | .stageFirmware version sizeBytes =>
    let (result, s) := s.stageFirmware version sizeBytes
    some (.of result, s)
  | .markUpdated =>
    let (result, s) := s.markUpdated
    some (.of result, s)
  | .markBooted =>
    let (result, s) := s.markBooted
    some (.of result, s)
  | .markDfu => some (.ok, s.markDfu)
  | .onReset => s.onReset.map fun (action, s) => (.booted action, s)

def lifecycle (initialVersion : Nat) : Machine UpdateStateMachine Op Call where
  start := .new initialVersion
  step s op := (perform s op).map fun (outcome, s) => (s, [{ op, outcome, after := s }])

/-! ## One operation -/

/-- What an operation can do. -/
inductive Performs (s : UpdateStateMachine) : Op → Outcome → UpdateStateMachine → Prop where
  | refused {op} (message : String) (hop : op ≠ .onReset) : Performs s op (.err message) s
  | staged {version sizeBytes} (hfit : sizeBytes ≤ activeBytes) :
      Performs s (.stageFirmware version sizeBytes) .ok { s with stagedVersion := some version }
  | marked {version} (hstaged : s.stagedVersion = some version) (hstate : s.state ≠ .swapTesting) :
      Performs s .markUpdated .ok { s with state := .swapPending }
  | confirmed (hstate : s.state = .swapTesting ∨ s.state = .boot ∨ s.state = .revert) :
      Performs s .markBooted .ok
        { s with state := .boot, previousVersion := none, stagedVersion := none }
  | detached : Performs s .markDfu .ok { s with state := .dfuDetach }
  | swapped {version} (hstate : s.state = .swapPending) (hstaged : s.stagedVersion = some version) :
      Performs s .onReset (.booted .swappedAndBoot)
        { state := .swapTesting, activeVersion := version, stagedVersion := none,
          previousVersion := some s.activeVersion }
  | rolledBack {version} (hstate : s.state = .swapTesting)
      (hprevious : s.previousVersion = some version) :
      Performs s .onReset (.booted .rolledBackAndBoot)
        { state := .revert, activeVersion := version, stagedVersion := some s.activeVersion,
          previousVersion := none }
  | bootedActive (hstate : s.state = .boot ∨ s.state = .revert) :
      Performs s .onReset (.booted .bootActive) s
  | enteredUsb (hstate : s.state = .dfuDetach) : Performs s .onReset (.booted .enterUsbBoot) s

section

variable {s s' : UpdateStateMachine} {op : Op} {outcome : Outcome}

theorem performs_markBooted (s : UpdateStateMachine) :
    Performs s .markBooted (.of s.markBooted.1) s.markBooted.2 := by
  unfold UpdateStateMachine.markBooted
  cases hstate : s.state with
  | boot => exact .confirmed (.inr (.inl hstate))
  | swapPending => exact .refused _ (by decide)
  | swapTesting => exact .confirmed (.inl hstate)
  | revert => exact .confirmed (.inr (.inr hstate))
  | dfuDetach => exact .refused _ (by decide)

theorem performs_markUpdated (s : UpdateStateMachine) :
    Performs s .markUpdated (.of s.markUpdated.1) s.markUpdated.2 := by
  unfold UpdateStateMachine.markUpdated
  cases hstaged : s.stagedVersion with
  | none => exact .refused _ (by decide)
  | some version =>
    by_cases hstate : s.state = .swapTesting
    · rw [if_neg (by simp), if_pos hstate]
      exact .refused _ (by decide)
    · rw [if_neg (by simp), if_neg hstate]
      have := Performs.marked hstaged hstate
      rwa [← hstaged]

theorem performs_stageFirmware (s : UpdateStateMachine) (version sizeBytes : Nat) :
    Performs s (.stageFirmware version sizeBytes) (.of (s.stageFirmware version sizeBytes).1)
      (s.stageFirmware version sizeBytes).2 := by
  unfold UpdateStateMachine.stageFirmware
  by_cases hfit : canFitInActive sizeBytes
  · rw [if_neg (not_not.mpr hfit)]
    exact .staged (of_decide_eq_true hfit)
  · rw [if_pos hfit]
    exact .refused _ (by simp)

theorem performs_onReset {action : BootAction} (h : s.onReset = some (action, s')) :
    Performs s .onReset (.booted action) s' := by
  unfold UpdateStateMachine.onReset at h
  cases hstate : s.state with
  | boot =>
    simp only [hstate, Option.some.injEq, Prod.mk.injEq] at h
    obtain ⟨rfl, rfl⟩ := h
    exact .bootedActive (.inl hstate)
  | swapPending =>
    cases hstaged : s.stagedVersion with
    | none => simp [hstate, hstaged] at h
    | some version =>
      simp only [hstate, hstaged, Option.some.injEq, Prod.mk.injEq] at h
      obtain ⟨rfl, rfl⟩ := h
      exact .swapped hstate hstaged
  | swapTesting =>
    cases hprevious : s.previousVersion with
    | none => simp [hstate, hprevious] at h
    | some version =>
      simp only [hstate, hprevious, Option.some.injEq, Prod.mk.injEq] at h
      obtain ⟨rfl, rfl⟩ := h
      exact .rolledBack hstate hprevious
  | revert =>
    simp only [hstate, Option.some.injEq, Prod.mk.injEq] at h
    obtain ⟨rfl, rfl⟩ := h
    exact .bootedActive (.inr hstate)
  | dfuDetach =>
    simp only [hstate, Option.some.injEq, Prod.mk.injEq] at h
    obtain ⟨rfl, rfl⟩ := h
    exact .enteredUsb hstate

theorem performs_of_perform (h : perform s op = some (outcome, s')) : Performs s op outcome s' := by
  cases op with
  | stageFirmware version sizeBytes =>
    cases h
    exact performs_stageFirmware s version sizeBytes
  | markUpdated =>
    cases h
    exact performs_markUpdated s
  | markBooted =>
    cases h
    exact performs_markBooted s
  | markDfu =>
    cases h
    exact .detached
  | onReset =>
    obtain ⟨⟨action, t⟩, hreset, heq⟩ := Option.map_eq_some_iff.mp h
    cases heq
    exact performs_onReset hreset

theorem performs_of_step {v : Nat} {calls : List Call}
    (h : (lifecycle v).step s op = some (s', calls)) :
    ∃ outcome, calls = [{ op, outcome, after := s' }] ∧ Performs s op outcome s' := by
  obtain ⟨⟨outcome, t⟩, hperform, heq⟩ := Option.map_eq_some_iff.mp h
  cases heq
  exact ⟨outcome, rfl, performs_of_perform hperform⟩

end

end Flash
end GarageDoor
