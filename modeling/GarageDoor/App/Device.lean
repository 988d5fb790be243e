/-
The tasks of the firmware together, as `main` spawns them.

To the sensor, telemetry and Wi-Fi tasks come the actuator, which gets its commands
through a channel, and the OTA task, which checks once at boot unless an image was just
reverted, and then once for each reset request it takes.  A reset ends the run.
-/
import GarageDoor.App.Actuator
import GarageDoor.App.Firmware
import GarageDoor.App.Telemetry.Inbox
import GarageDoor.Library.Channel
import GarageDoor.Library.Projection

namespace GarageDoor
namespace Device

open Library Door

/-- Capacity of `DOOR_CMD_CHANNEL`. -/
def doorCmdCapacity : Nat := 4

/-- Where `ota_task` stands. -/
inductive OtaPhase where
  /-- In `run_check`. -/
  | checking
  /-- Awaiting `RESET_REQUEST_SIGNAL`. -/
  | waiting
  /-- `sys_reset` was called on a committed image. -/
  | reset
  deriving DecidableEq, Repr

structure Tasks where
  clock : Instant
  firmware : Firmware.Tasks
  actuator : Actuator.Task
  commands : Channel DoorCommand doorCmdCapacity
  ota : OtaPhase

inductive Event where
  | firmware (event : Firmware.Event)
  | actuator (event : Actuator.Event)
  /-- A check ends without an update. -/
  | checkEnded
  | committed
  /-- The OTA task takes a reset request. -/
  | requested

inductive Observation where
  | firmware (observation : Firmware.Observation)
  /-- The telemetry task takes a message out of its inbox. -/
  | handled (message : Telemetry.Message)
  | actuator (observation : Actuator.Observation)
  | checkStarted
  | reset

def start (bootCheckAllowed : Bool) : Tasks :=
  { clock := 0, firmware := Firmware.start, actuator := Actuator.start, commands := .new,
    ota := if bootCheckAllowed then .checking else .waiting }

/-- The channel after what the telemetry task puts in, if it has room for it. -/
def Tasks.put (s : Tasks) : Firmware.Event → Option (Channel DoorCommand doorCmdCapacity)
  | .telemetry .sent => s.commands.send .trigger
  | _ => some s.commands

/-- The channel after what the actuator takes out, if that is what comes next. -/
def Tasks.take (s : Tasks) : Actuator.Event → Option (Channel DoorCommand doorCmdCapacity)
  | .receive command =>
    match s.commands.receive with
    | some (next, commands) => if next = command then some commands else none
    | none => none
  | _ => some s.commands

def Tasks.handles (s : Tasks) : Firmware.Event → List Telemetry.Message
  | .telemetry e => s.firmware.telemetry.handles e
  | _ => []

def Tasks.takeRequest (s : Tasks) : Option Tasks :=
  match s.firmware.signals.resetRequest.wait with
  | some (_, resetRequest) =>
    some { s with firmware := { s.firmware with
      signals := { s.firmware.signals with resetRequest } } }
  | none => none

def react (version : UInt32) (s : Tasks) (t : Instant) :
    Event → Option (Tasks × List Observation)
  | .firmware e =>
    match s.put e, Firmware.step version s.firmware { time := t, event := e } with
    | some commands, some (firmware, os) =>
      some ({ s with commands, firmware }, (s.handles e).map .handled ++ os.map .firmware)
    | _, _ => none
  | .actuator e =>
    match s.take e, Actuator.step s.actuator { time := t, event := e } with
    | some commands, some (actuator, os) =>
      some ({ s with commands, actuator }, os.map .actuator)
    | _, _ => none
  | .checkEnded =>
    if s.ota = .checking then some ({ s with ota := .waiting }, []) else none
  | .committed =>
    if s.ota = .checking then some ({ s with ota := .reset }, [.reset]) else none
  | .requested =>
    if s.ota = .waiting then
      match s.takeRequest with
      | some s => some ({ s with ota := .checking }, [.checkStarted])
      | none => none
    else none

/-- No task has reset the MCU. -/
def Tasks.running (s : Tasks) : Prop :=
  s.firmware.supervisor.phase ≠ .reset ∧ s.ota ≠ .reset

instance (s : Tasks) : Decidable s.running := inferInstanceAs (Decidable (_ ∧ _))

def step (version : UInt32) (s : Tasks) (e : Timed Event) :
    Option (Tasks × List Observation) :=
  if s.clock ≤ e.time ∧ s.running then
    react version { s with clock := e.time } e.time e.event
  else
    none

def device (version : UInt32) (bootCheckAllowed : Bool) :
    Machine Tasks (Timed Event) Observation where
  start := start bootCheckAllowed
  step := step version

/-! ## What a step changes -/

/-- One task moves: one of the firmware's with the channel, the actuator with the channel,
or the OTA task with the signal of its requests. -/
inductive Moves (version : UInt32) (s : Tasks) (t : Instant) :
    Event → Tasks → List Observation → Prop where
  | firmware {e commands firmware os} (hput : s.put e = some commands)
      (h : Firmware.step version s.firmware { time := t, event := e } = some (firmware, os)) :
      Moves version s t (.firmware e) { s with clock := t, commands, firmware }
        ((s.handles e).map .handled ++ os.map .firmware)
  | actuator {e commands actuator os} (htake : s.take e = some commands)
      (h : Actuator.step s.actuator { time := t, event := e } = some (actuator, os)) :
      Moves version s t (.actuator e) { s with clock := t, commands, actuator }
        (os.map .actuator)
  | checkEnded (h : s.ota = .checking) :
      Moves version s t .checkEnded { s with clock := t, ota := .waiting } []
  | committed (h : s.ota = .checking) :
      Moves version s t .committed { s with clock := t, ota := .reset } [.reset]
  | requested (h : s.ota = .waiting)
      (hset : s.firmware.signals.resetRequest.value = some ()) :
      Moves version s t .requested
        { s with clock := t, ota := .checking, firmware := { s.firmware with
          signals := { s.firmware.signals with resetRequest := .new } } } [.checkStarted]

section

variable {version : UInt32} {s s' : Tasks} {e : Timed Event} {os : List Observation}

theorem step_clock (h : step version s e = some (s', os)) : s.clock ≤ e.time ∧ s.running := by
  unfold step at h
  by_cases hready : s.clock ≤ e.time ∧ s.running
  · exact hready
  · rw [if_neg hready] at h
    cases h

theorem moves_of_step (h : step version s e = some (s', os)) :
    Moves version s e.time e.event s' os := by
  have hready := step_clock h
  unfold step at h
  rw [if_pos hready] at h
  obtain ⟨t, e⟩ := e
  cases e with
  | firmware e =>
    simp only [react] at h
    split at h
    · next hput hstep =>
      cases h
      exact .firmware hput hstep
    · cases h
  | actuator e =>
    simp only [react] at h
    split at h
    · next htake hstep =>
      cases h
      exact .actuator htake hstep
    · cases h
  | checkEnded =>
    simp only [react] at h
    by_cases hota : s.ota = .checking
    · rw [if_pos hota] at h
      cases h
      exact .checkEnded hota
    · rw [if_neg hota] at h
      cases h
  | committed =>
    simp only [react] at h
    by_cases hota : s.ota = .checking
    · rw [if_pos hota] at h
      cases h
      exact .committed hota
    · rw [if_neg hota] at h
      cases h
  | requested =>
    simp only [react, Tasks.takeRequest] at h
    by_cases hota : s.ota = .waiting
    · rw [if_pos hota] at h
      cases hset : s.firmware.signals.resetRequest.wait with
      | none => simp [hset] at h
      | some taken =>
        obtain ⟨⟨⟩, cell⟩ := taken
        obtain ⟨hvalue, rfl⟩ := Signal.wait_eq_some.mp hset
        simp only [hset, Option.some.injEq, Prod.mk.injEq] at h
        obtain ⟨rfl, rfl⟩ := h
        exact .requested hota hvalue
    · rw [if_neg hota] at h
      cases h

end

/-! ## The actuator on its own -/

/-- What the actuator sees of the whole. -/
def actuatorPart : Part Tasks (Timed Event) Observation Actuator.Task
    (Timed Actuator.Event) Actuator.Observation where
  state := Tasks.actuator
  event e :=
    match e.event with
    | .actuator event => some { time := e.time, event }
    | _ => none
  observation
    | .actuator o => some o
    | _ => none

section

variable {version : UInt32} {bootCheckAllowed : Bool} {s : Tasks} {es : List (Timed Event)}
  {os : List Observation}

theorem observations_actuator (os : List Actuator.Observation) :
    actuatorPart.observations (os.map .actuator) = os := by
  rw [Part.observations, List.filterMap_map]
  exact List.filterMap_some

theorem observations_firmware (messages : List Telemetry.Message)
    (os : List Firmware.Observation) :
    actuatorPart.observations (messages.map .handled ++ os.map .firmware) = [] := by
  refine List.filterMap_eq_nil_iff.mpr fun o ho => ?_
  rcases List.mem_append.mp ho with ho | ho <;> obtain ⟨x, -, rfl⟩ := List.mem_map.mp ho <;> rfl

/-- In any interleaving the actuator runs as it does alone. -/
theorem actuator_run (h : (device version bootCheckAllowed).run es = some (s, os)) :
    Actuator.actuatorTask.run (actuatorPart.events es) =
      some (s.actuator, actuatorPart.observations os) := by
  refine Part.run_project (p := actuatorPart) rfl ?_ h
  intro s e s' o hs
  have hmoves := moves_of_step hs
  obtain ⟨t, e⟩ := e
  cases hmoves with
  | firmware hput h => exact ⟨rfl, observations_firmware _ _⟩
  | @actuator e commands actuator os htake h =>
    show Actuator.step s.actuator { time := t, event := e } =
      some (actuator, actuatorPart.observations (os.map .actuator))
    rw [h, observations_actuator]
  | checkEnded h => exact ⟨rfl, rfl⟩
  | committed h => exact ⟨rfl, rfl⟩
  | requested h hset => exact ⟨rfl, rfl⟩

end

end Device
end GarageDoor
