/-
The sensor, telemetry and Wi-Fi tasks together.

The tasks take turns at their awaits and meet in the signals alone.  A reset ends the run.
-/
import GarageDoor.App.Telemetry.Task

namespace GarageDoor
namespace Firmware

open Library Door Telemetry

structure Tasks where
  clock : Instant
  /-- Nothing before the sensor task has taken its first sample. -/
  sensor : Option ReedDebouncer
  telemetry : Task
  supervisor : Wifi.Supervisor
  signals : Signals

inductive Event where
  /-- The sensor task takes its first sample. -/
  | sensorStarted (reedClosed : Bool)
  | sampled (reedClosed : Bool)
  | telemetry (event : Telemetry.Event)
  | wifi (event : Wifi.Event)

inductive Observation where
  /-- The initial state, or one that the debouncer committed. -/
  | committed (state : DoorState)
  | telemetry (observation : Telemetry.Observation)
  /-- The supervisor joined the network. -/
  | associated
  /-- The supervisor left an association because of a rejoin request. -/
  | abandoned
  | wifi (observation : Wifi.Observation)
  deriving DecidableEq

def start : Tasks :=
  { clock := 0, sensor := none, telemetry := Telemetry.start, supervisor := Wifi.start,
    signals := .new }

def Tasks.signalState (s : Tasks) (state : DoorState) : Tasks :=
  { s with signals := { s.signals with doorState := s.signals.doorState.signal state } }

def Tasks.startSensor (s : Tasks) (reedClosed : Bool) :
    Option (Tasks × List Observation) :=
  match s.sensor with
  | some _ => none
  | none =>
    let initial := DoorState.ofReed reedClosed
    some ({ s.signalState initial with sensor := some (.new initial) }, [.committed initial])

def Tasks.sample (s : Tasks) (t : Instant) (reedClosed : Bool) :
    Option (Tasks × List Observation) :=
  match s.sensor with
  | none => none
  | some debouncer =>
    match debouncer.update reedClosed t.millis with
    | (some state, debouncer) =>
      some ({ s.signalState state with sensor := some debouncer }, [.committed state])
    | (none, debouncer) => some ({ s with sensor := some debouncer }, [])

/-- A step of the supervisor.  A rejoin request is taken from its signal. -/
def Tasks.supervise (s : Tasks) (t : Instant) (e : Wifi.Event) :
    Option (Tasks × List Observation) :=
  match Wifi.step s.supervisor { time := t, event := e } with
  | none => none
  | some (supervisor, os) =>
    if e = .rejoinRequested then
      match s.signals.wifiRejoin.wait with
      | none => none
      | some (_, wifiRejoin) =>
        some ({ s with supervisor, signals := { s.signals with wifiRejoin } },
          .abandoned :: os.map .wifi)
    else
      some ({ s with supervisor }, (if e = .joined then [.associated] else []) ++ os.map .wifi)

def react (version : UInt32) (s : Tasks) (t : Instant) :
    Event → Option (Tasks × List Observation)
  | .sensorStarted reedClosed => s.startSensor reedClosed
  | .sampled reedClosed => s.sample t reedClosed
  | .telemetry e =>
    match Telemetry.react version t s.telemetry s.signals s.telemetry.phase e with
    | none => none
    | some (telemetry, signals, os) => some ({ s with telemetry, signals }, os.map .telemetry)
  | .wifi e => s.supervise t e

def step (version : UInt32) (s : Tasks) (e : Timed Event) :
    Option (Tasks × List Observation) :=
  if s.clock ≤ e.time ∧ s.supervisor.phase ≠ .reset then
    react version { s with clock := e.time } e.time e.event
  else
    none

def firmware (version : UInt32) : Machine Tasks (Timed Event) Observation where
  start := start
  step := step version

/-! ## What a step changes -/

section

variable {version : UInt32} {s s' : Tasks} {e : Timed Event} {os : List Observation}

theorem step_react (h : step version s e = some (s', os)) :
    react version { s with clock := e.time } e.time e.event = some (s', os) := by
  unfold step at h
  by_cases hready : s.clock ≤ e.time ∧ s.supervisor.phase ≠ .reset
  · rwa [if_pos hready] at h
  · rw [if_neg hready] at h
    cases h

/-- One task moves: the sensor, with the state it commits if any, the telemetry task, or
the supervisor, which takes a rejoin request or leaves the signals alone. -/
inductive Moves (version : UInt32) (s : Tasks) (t : Instant) :
    Event → Tasks → List Observation → Prop where
  | started {reedClosed} (hs : s.sensor = none) :
      Moves version s t (.sensorStarted reedClosed)
        { s.signalState (.ofReed reedClosed) with
          clock := t, sensor := some (.new (.ofReed reedClosed)) }
        [.committed (.ofReed reedClosed)]
  | committed {reedClosed d state d'} (hs : s.sensor = some d)
      (hupdate : d.update reedClosed t.millis = (some state, d')) :
      Moves version s t (.sampled reedClosed)
        { s.signalState state with clock := t, sensor := some d' } [.committed state]
  | sampled {reedClosed d d'} (hs : s.sensor = some d)
      (hupdate : d.update reedClosed t.millis = (none, d')) :
      Moves version s t (.sampled reedClosed) { s with clock := t, sensor := some d' } []
  | telemetry {e telemetry signals os}
      (h : Telemetry.react version t s.telemetry s.signals s.telemetry.phase e =
        some (telemetry, signals, os)) :
      Moves version s t (.telemetry e) { s with clock := t, telemetry, signals }
        (os.map .telemetry)
  | rejoined {supervisor os}
      (h : Wifi.step s.supervisor { time := t, event := .rejoinRequested } =
        some (supervisor, os)) (hset : s.signals.wifiRejoin.value = some ()) :
      Moves version s t (.wifi .rejoinRequested)
        { s with clock := t, supervisor, signals := { s.signals with wifiRejoin := .new } }
        (.abandoned :: os.map .wifi)
  | supervised {e supervisor os} (he : e ≠ .rejoinRequested)
      (h : Wifi.step s.supervisor { time := t, event := e } = some (supervisor, os)) :
      Moves version s t (.wifi e) { s with clock := t, supervisor }
        ((if e = .joined then [.associated] else []) ++ os.map .wifi)

theorem moves_of_step (h : step version s e = some (s', os)) :
    Moves version s e.time e.event s' os := by
  have hreact := step_react h
  obtain ⟨t, e⟩ := e
  cases e with
  | sensorStarted reedClosed =>
    simp only [react, Tasks.startSensor] at hreact
    cases hs : s.sensor with
    | some d => simp [hs] at hreact
    | none =>
      simp only [hs, Option.some.injEq, Prod.mk.injEq] at hreact
      obtain ⟨rfl, rfl⟩ := hreact
      exact .started hs
  | sampled reedClosed =>
    simp only [react, Tasks.sample] at hreact
    cases hs : s.sensor with
    | none => simp [hs] at hreact
    | some d =>
      simp only [hs] at hreact
      rcases hupdate : d.update reedClosed t.millis with ⟨_ | state, d'⟩
      · simp only [hupdate, Option.some.injEq, Prod.mk.injEq] at hreact
        obtain ⟨rfl, rfl⟩ := hreact
        exact .sampled hs hupdate
      · simp only [hupdate, Option.some.injEq, Prod.mk.injEq] at hreact
        obtain ⟨rfl, rfl⟩ := hreact
        exact .committed hs hupdate
  | telemetry e =>
    simp only [react] at hreact
    cases hr : Telemetry.react version t s.telemetry s.signals s.telemetry.phase e with
    | none => simp [hr] at hreact
    | some r =>
      simp only [hr, Option.some.injEq, Prod.mk.injEq] at hreact
      obtain ⟨rfl, rfl⟩ := hreact
      exact .telemetry hr
  | wifi e =>
    simp only [react, Tasks.supervise] at hreact
    cases hw : Wifi.step s.supervisor { time := t, event := e } with
    | none => simp [hw] at hreact
    | some r =>
      simp only [hw] at hreact
      by_cases he : e = .rejoinRequested
      · subst he
        rw [if_pos rfl] at hreact
        cases hset : s.signals.wifiRejoin.wait with
        | none => simp [hset] at hreact
        | some taken =>
          obtain ⟨⟨⟩, cell⟩ := taken
          obtain ⟨hvalue, rfl⟩ := Signal.wait_eq_some.mp hset
          simp only [hset, Option.some.injEq, Prod.mk.injEq] at hreact
          obtain ⟨rfl, rfl⟩ := hreact
          exact .rejoined hw hvalue
      · simp only [if_neg he, Option.some.injEq, Prod.mk.injEq] at hreact
        obtain ⟨rfl, rfl⟩ := hreact
        exact .supervised he hw

end

end Firmware
end GarageDoor
