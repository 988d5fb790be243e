/-
The pacing of reconnects.

Every failed attempt to connect and every lost connection passes through `fail_backoff` once,
and a session connect starts the pacing over.  The signals hold whatever the other tasks leave
in them.
-/
import GarageDoor.App.Firmware
import GarageDoor.Library.Backoff
import GarageDoor.Library.Trace

namespace GarageDoor
namespace Telemetry

open Library Ascii Mqtt Door

/-- What an await of the task comes to for the reconnect loop. -/
inductive Outcome where
  | connected
  | failed
  | other
  deriving DecidableEq, Repr

def outcome : Phase → Event → Outcome
  | .openingSession, .sessionConnected _ => .connected
  | .resolving, .resolvedEmpty | .resolving, .dnsFailed | .connecting, .tcpFailed
  | .openingSession, .sessionFailed | .subscribing, .subscribeFailed
  | .selecting, .receiveFailed | .publishingStatus, .publishFailed => .failed
  | _, _ => .other

/-- What resolved an await, when, and what the other tasks had left in the signals. -/
structure Moment where
  time : Instant
  signals : Signals
  event : Event

/-- A step of the loop, with what it showed. -/
structure Pace where
  outcome : Outcome
  time : Instant
  shown : List Observation
  deriving DecidableEq

def reconnects (version : UInt32) : Machine Task Moment Pace where
  start := start
  step s m := (react version m.time s m.signals s.phase m.event).map fun r =>
    (r.1, [{ outcome := outcome s.phase m.event, time := m.time, shown := r.2.2 }])

def advance (j : Nat) : Outcome → Nat
  | .connected => 0
  | .failed => j + 1
  | .other => j

/-- The failures since the last session connect. -/
def failures (ps : List Pace) : Nat := ps.foldl (fun j p => advance j p.outcome) 0

/-- The `j`-th wait in milliseconds: seconds that double up to thirty. -/
def pause (j : Nat) : Nat := min (2 ^ (j - 1)) 30 * 1000

def Observation.pacing : Observation → Bool
  | .rejoinRequested | .backingOff _ => true
  | _ => false

/-- The `j`-th failure waits the `j`-th pause, once, and requests a rejoin if it is one of
every `MQTT_REJOIN_FAILURES`; nothing else waits or requests. -/
def Paced (pre : List Pace) (p : Pace) : Prop :=
  let j := failures pre + 1
  match p.outcome with
  | .failed =>
    p.shown = (if Wifi.mqttRejoinFailures ∣ j then [.rejoinRequested] else []) ++
      [.backingOff (pause j)]
  | _ => ∀ o ∈ p.shown, o.pacing = false

theorem failures_snoc (ps : List Pace) (p : Pace) :
    failures (ps ++ [p]) = advance (failures ps) p.outcome := by
  rw [failures, List.foldl_append]
  rfl

/-! ## What a step does to the pacing -/

def Phase.backing : Phase → Bool
  | .backingOff _ => true
  | _ => false

section

variable {version : UInt32} {t : Instant} {s : Task} {signals : Signals}

theorem Fails.outcome {phase : Phase} {e : Event} (h : Fails phase e) :
    outcome phase e = .failed ∧ phase.backing = false := by
  cases h <;> exact ⟨rfl, rfl⟩

theorem rejoin_failure {c : Wifi.RejoinCounter} {j : Nat}
    (h : c.failures = j % Wifi.mqttRejoinFailures) :
    c.failure = (Decidable.decide (Wifi.mqttRejoinFailures ∣ j + 1),
      { failures := (j + 1) % Wifi.mqttRejoinFailures }) := by
  unfold Wifi.RejoinCounter.failure Wifi.mqttRejoinFailures at *
  simp only [h]
  by_cases htrip : 5 ≤ j % 5 + 1
  · rw [if_pos htrip]
    have hdvd : 5 ∣ j + 1 := by omega
    have hmod : (j + 1) % 5 = 0 := by omega
    simp [hdvd, hmod]
  · rw [if_neg htrip]
    have hdvd : ¬ 5 ∣ j + 1 := by omega
    have hmod : (j + 1) % 5 = j % 5 + 1 := by omega
    simp [hdvd, hmod]

/-- After `j` failures the counter stands at `j`, modulo its threshold, and the backoff is the
pause of the last failure, or of the next one once its wait is over. -/
structure InStep (s : Task) (j : Nat) : Prop where
  rejoin : s.rejoin.failures = j % Wifi.mqttRejoinFailures
  backoff : s.backoff = pause (if s.phase.backing then j else j + 1)
  failed : s.phase.backing = true → 0 < j

/-- A failure goes through `fail_backoff` once. -/
theorem InStep.failBackoff {j : Nat} (h : InStep s j) (hphase : s.phase.backing = false) :
    InStep (failBackoff t s signals).1 (j + 1) ∧
      (failBackoff t s signals).1.phase = .backingOff (Wifi.after t (pause (j + 1))) ∧
      (failBackoff t s signals).2.2 =
        (if Wifi.mqttRejoinFailures ∣ j + 1 then [.rejoinRequested] else []) ++
          [.backingOff (pause (j + 1))] := by
  have hbackoff : s.backoff = pause (j + 1) := by
    rw [h.backoff, hphase]
    rfl
  unfold Telemetry.failBackoff
  rw [rejoin_failure h.rejoin, hbackoff]
  by_cases htrip : Wifi.mqttRejoinFailures ∣ j + 1
  · rw [decide_eq_true htrip, if_pos htrip]
    exact ⟨⟨rfl, rfl, fun _ => Nat.succ_pos j⟩, rfl, rfl⟩
  · rw [decide_eq_false htrip, if_neg htrip]
    exact ⟨⟨rfl, rfl, fun _ => Nat.succ_pos j⟩, rfl, rfl⟩

/-! ## Runs -/

/-- A wait runs from the failure that is shown last to the end of its pause. -/
def Waits (s : Task) (ps : List Pace) : Prop :=
  ∀ expiresAt, s.phase = .backingOff expiresAt → ∃ pre time shown,
    ps = pre ++ [{ outcome := .failed, time, shown }] ∧
      expiresAt = Wifi.after time (pause (failures pre + 1))

/-- What holds after every step. -/
structure Pacing (s : Task) (ps : List Pace) : Prop where
  paced : EachAfter Paced ps
  inStep : InStep s (failures ps)
  waits : Waits s ps

/-- A step that shows nothing of the pacing and does not end in a wait. -/
theorem Pacing.snoc {ps : List Pace} {r : Ran} {p : Pace} (h : Pacing s ps)
    (hp : Paced ps p) (hr : InStep r.1 (advance (failures ps) p.outcome))
    (hphase : r.1.phase.backing = false) : Pacing r.1 (ps ++ [p]) where
  paced := eachAfter_snoc.mpr ⟨h.paced, hp⟩
  inStep := by rwa [failures_snoc]
  waits := by
    intro expiresAt hwait
    rw [hwait] at hphase
    cases hphase

end

end Telemetry

namespace Firmware

open Library

/-- What the telemetry task shows in a run of the firmware. -/
def telemetryShown (os : List Observation) : List Telemetry.Observation :=
  os.filterMap fun o => match o with
    | .telemetry o => some o
    | _ => none

theorem telemetryShown_append (os os' : List Observation) :
    telemetryShown (os ++ os') = telemetryShown os ++ telemetryShown os' :=
  List.filterMap_append

theorem telemetryShown_telemetry (os : List Telemetry.Observation) :
    telemetryShown (os.map .telemetry) = os := by
  rw [telemetryShown, List.filterMap_map]
  exact List.filterMap_some

theorem telemetryShown_wifi (os : List Wifi.Observation) :
    telemetryShown (os.map .wifi) = [] := by
  rw [telemetryShown, List.filterMap_map]
  exact List.filterMap_eq_nil_iff.mpr fun _ _ => rfl

/-- In the firmware, the telemetry task runs as it does alone, whatever the other tasks do to the
signals between its steps. -/
theorem reconnects_of_run {version : UInt32} {es : List (Timed Event)} {s : Tasks}
    {os : List Observation} (hrun : (firmware version).run es = some (s, os)) :
    ∃ ms ps, (Telemetry.reconnects version).run ms = some (s.telemetry, ps) ∧
      telemetryShown os = ps.flatMap (·.shown) := by
  refine Machine.run_history
    (I := fun s _ os => ∃ ms ps, (Telemetry.reconnects version).run ms = some (s.telemetry, ps) ∧
      telemetryShown os = ps.flatMap (·.shown)) ⟨[], [], rfl, rfl⟩ ?_ hrun
  intro s _ os e s' o ⟨ms, ps, hms, hshown⟩ hstep
  have hother : telemetryShown o = [] → telemetryShown (os ++ o) = ps.flatMap (·.shown) := by
    intro ho
    rw [telemetryShown_append, ho, List.append_nil, hshown]
  have hmoves := moves_of_step hstep
  obtain ⟨time, event⟩ := e
  cases hmoves with
  | started hs => exact ⟨ms, ps, hms, hother rfl⟩
  | committed hs hupdate => exact ⟨ms, ps, hms, hother rfl⟩
  | sampled hs hupdate => exact ⟨ms, ps, hms, hother rfl⟩
  | rejoined h hset => exact ⟨ms, ps, hms, hother (telemetryShown_wifi _)⟩
  | supervised he h =>
    refine ⟨ms, ps, hms, hother ?_⟩
    rw [telemetryShown_append, telemetryShown_wifi]
    split <;> rfl
  | @telemetry event telemetry signals shown h =>
    have hpace : (Telemetry.reconnects version).step s.telemetry
        { time, signals := s.signals, event } = some (telemetry,
          [{ outcome := Telemetry.outcome s.telemetry.phase event, time, shown }]) := by
      simp only [Telemetry.reconnects, h, Option.map_some]
    refine ⟨_, _, Machine.run_snoc hms hpace, ?_⟩
    rw [telemetryShown_append, telemetryShown_telemetry, hshown, List.flatMap_append]
    simp

end Firmware
end GarageDoor
