/-
The last committed door state is in its signal, or else in the telemetry task's copy.
-/
import GarageDoor.App.Firmware

namespace GarageDoor
namespace Telemetry

open Library Mqtt Door

section

variable {version : UInt32} {t : Instant} {s : Task} {signals : Signals}

/-- The state the task would go by if it looked at the signal. -/
def latestState (s : Task) (signals : Signals) : Option DoorState :=
  signals.doorState.latest s.current

theorem latest_failBackoff (t : Instant) (s : Task) (signals : Signals) :
    latestState (failBackoff t s signals).1 (failBackoff t s signals).2.1 =
      latestState s signals := by
  unfold failBackoff
  rcases s.rejoin.failure with ⟨_ | _, rejoin⟩ <;> rfl

theorem publishSnapshot_some {state : DoorState} (h : latestState s signals = some state) :
    publishSnapshot s signals =
      ({ s with current := some state, phase := .publishingSnapshot },
        { signals with doorState := .new },
        [.published topicOnchange (onchange (isOpen state))]) := by
  have htaken : signals.doorState.value.or s.current = some state := h
  simp only [publishSnapshot, Signal.tryTake, htaken, publishState_eq]

theorem latest_publishSnapshot (s : Task) (signals : Signals) :
    latestState (publishSnapshot s signals).1 (publishSnapshot s signals).2.1 =
      latestState s signals := by
  cases hlatest : latestState s signals with
  | some state =>
    rw [publishSnapshot_some hlatest]
    rfl
  | none =>
    have htaken : signals.doorState.value.or s.current = none := hlatest
    simp only [publishSnapshot, Signal.tryTake, htaken, Task.at]
    rfl

theorem latest_act {action : Action} (hstate : ∀ state, action ≠ .stateChange state) :
    latestState (act version t s signals action).1 (act version t s signals action).2.1 =
      latestState s signals := by
  cases action with
  | trigger => rfl
  | reset => rfl
  | status uuid uuidLen =>
    simp only [act]
    split <;> rfl
  | stateChange state => exact absurd rfl (hstate state)
  | disconnected => exact latest_failBackoff t s signals
  | unknown => rfl

theorem latest_steps {phase : Phase} {e : Event} {r : Ran}
    (h : Steps version t s signals phase e r) :
    latestState r.1 r.2.1 = latestState s signals := by
  cases h with
  | failed => exact latest_failBackoff t s signals
  | @connected resumed =>
    cases resumed with
    | false => rfl
    | true => exact latest_publishSnapshot _ signals
  | subscribed => exact latest_publishSnapshot s signals
  | @selected action s₁ signals₁ h =>
    rcases select_cases h with ⟨message, inbox, -, rfl, rfl, haction⟩ |
      ⟨state, doorState, -, rfl, rfl, hwait, rfl⟩
    · refine (latest_act fun state hstate => ?_).trans rfl
      rw [haction] at hstate
      split at hstate
      · cases hstate
      · exact classify_ne_stateChange _ _ _ hstate
    · show latestState (publishState _ _ _ _).1 (publishState _ _ _ _).2.1 = _
      rw [publishState_eq]
      exact Signal.latest_wait hwait s₁.current
  | _ => rfl

/-- The telemetry task has a new connection, with its subscriptions. -/
def Connects (phase : Phase) (e : Event) : Prop :=
  phase = .openingSession ∧ e = .sessionConnected true ∨ phase = .subscribing ∧ e = .subscribed

theorem react_connects {phase : Phase} {e : Event} {r : Ran} {state : DoorState}
    (hconnects : Connects phase e) (hlatest : latestState s signals = some state)
    (h : react version t s signals phase e = some r) :
    r.2.2 = [.published topicOnchange (onchange (isOpen state))] ∧
      r.1.phase = .publishingSnapshot ∧ r.1.current = some state := by
  rcases hconnects with ⟨rfl, rfl⟩ | ⟨rfl, rfl⟩
  · let s₁ : Task :=
      { s with backoff := initialBackoff, rejoin := s.rejoin.success, inbox := [] }
    have hr : publishSnapshot s₁ signals = r := Option.some.inj h
    have hlatest : latestState s₁ signals = some state := hlatest
    rw [← hr, publishSnapshot_some hlatest]
    exact ⟨rfl, rfl, rfl⟩
  · have hr : publishSnapshot s signals = r := Option.some.inj h
    rw [← hr, publishSnapshot_some hlatest]
    exact ⟨rfl, rfl, rfl⟩

end

end Telemetry

namespace Firmware

open Library Mqtt Door Telemetry

def Observation.committed? : Observation → Option DoorState
  | .committed state => some state
  | _ => none

/-- The state committed last. -/
def lastCommitted (os : List Observation) : Option DoorState :=
  (os.filterMap Observation.committed?).getLast?

section

variable {version : UInt32} {s s' : Tasks} {t : Instant} {e : Event} {os o : List Observation}

theorem lastCommitted_append (os o : List Observation) :
    lastCommitted (os ++ o) = (lastCommitted o).or (lastCommitted os) := by
  rw [lastCommitted, List.filterMap_append, List.getLast?_append]
  rfl

theorem lastCommitted_silent (h : ∀ x ∈ o, x.committed? = none) (os : List Observation) :
    lastCommitted (os ++ o) = lastCommitted os := by
  have hnone : o.filterMap Observation.committed? = [] := List.filterMap_eq_nil_iff.mpr h
  rw [lastCommitted_append, lastCommitted, hnone]
  rfl

/-- The debouncer, and the telemetry task as soon as it looks, are at the last committed
state. -/
structure Delivered (s : Tasks) (os : List Observation) : Prop where
  sensor : s.sensor.map ReedDebouncer.state = lastCommitted os
  telemetry : latestState s.telemetry s.signals = lastCommitted os

theorem delivered_start : Delivered start [] := ⟨rfl, rfl⟩

theorem Delivered.silent (h : Delivered s os) (hsensor : s'.sensor = s.sensor)
    (hlatest : latestState s'.telemetry s'.signals = latestState s.telemetry s.signals)
    (ho : ∀ x ∈ o, x.committed? = none) : Delivered s' (os ++ o) := by
  constructor
  · rw [lastCommitted_silent ho, hsensor, h.sensor]
  · rw [lastCommitted_silent ho, hlatest, h.telemetry]

theorem Delivered.step (h : Delivered s os) (hmoves : Moves version s t e s' o) :
    Delivered s' (os ++ o) := by
  cases hmoves with
  | started hs => constructor <;> (rw [lastCommitted_append]; rfl)
  | @committed reedClosed d state d' hs hupdate =>
    have hstate := ReedDebouncer.update_state d reedClosed t.millis
    rw [hupdate] at hstate
    constructor
    · rw [lastCommitted_append]
      exact congrArg some hstate
    · rw [lastCommitted_append]
      rfl
  | @sampled reedClosed d d' hs hupdate =>
    have hstate := ReedDebouncer.update_state d reedClosed t.millis
    rw [hupdate] at hstate
    have hsensor := h.sensor
    rw [hs] at hsensor
    rw [List.append_nil]
    refine ⟨?_, h.telemetry⟩
    rw [← hsensor]
    exact congrArg some hstate
  | telemetry hreact =>
    exact h.silent rfl (latest_steps (steps_of_react hreact)) (by simp [Observation.committed?])
  | rejoined hw hset => exact h.silent rfl rfl (by simp [Observation.committed?])
  | supervised he hw =>
    refine h.silent rfl rfl fun x hx => ?_
    rcases List.mem_append.mp hx with hx | hx
    · split at hx
      · rw [List.mem_singleton.mp hx]
        rfl
      · cases hx
    · obtain ⟨y, -, rfl⟩ := List.mem_map.mp hx
      rfl

theorem delivered_of_run {es : List (Timed Event)}
    (h : (firmware version).run es = some (s, os)) : Delivered s os :=
  Machine.run_history (I := fun s _ os => Delivered s os) delivered_start
    (fun hI hs => hI.step (moves_of_step hs)) h

/-- From the first state on, the last committed state is in the signal or else is the
task's copy, and a new connection publishes it. -/
theorem committed_state_delivered {es : List (Timed Event)} {state : DoorState}
    (h : (firmware version).run es = some (s, os)) (hstate : lastCommitted os = some state) :
    s.sensor.map ReedDebouncer.state = some state ∧
    s.signals.doorState.latest s.telemetry.current = some state ∧
    ∀ t e s' o, Connects s.telemetry.phase e →
      step version s { time := t, event := .telemetry e } = some (s', o) →
      o = [.telemetry (.published topicOnchange (onchange (isOpen state)))] ∧
        s'.telemetry.phase = .publishingSnapshot ∧ s'.telemetry.current = some state := by
  have hdelivered := delivered_of_run h
  have hsensor := hdelivered.sensor
  rw [hstate] at hsensor
  have hlatest : latestState s.telemetry s.signals = some state :=
    hdelivered.telemetry.trans hstate
  refine ⟨hsensor, hlatest, ?_⟩
  intro t e s' o hconnects hstep
  cases moves_of_step hstep with
  | telemetry hreact =>
    obtain ⟨hos, hphase, hcurrent⟩ := react_connects hconnects hlatest hreact
    exact ⟨congrArg (List.map Observation.telemetry) hos, hphase, hcurrent⟩

/-- The door opens while the broker cannot be reached. -/
def outage : List (Timed Event) :=
  [⟨0, .sensorStarted true⟩, ⟨0, .telemetry .configUp⟩, ⟨0, .sampled false⟩,
    ⟨0, .telemetry .dnsFailed⟩, ⟨50000, .sampled false⟩, ⟨1000000, .telemetry .waited⟩,
    ⟨1000000, .telemetry .configUp⟩, ⟨1000000, .telemetry .resolved⟩,
    ⟨1000000, .telemetry .tcpConnected⟩, ⟨1000000, .telemetry (.sessionConnected false)⟩]

theorem committed_state_delivered_outage : ∃ s os, (firmware 1).run outage = some (s, os) ∧
    Connects s.telemetry.phase .subscribed ∧
    s.signals.doorState.latest s.telemetry.current = some .opened := by
  have hrun : ∃ s os, (firmware 1).run outage = some (s, os) ∧
      lastCommitted os = some .opened ∧ s.telemetry.phase = .subscribing :=
    ⟨_, _, rfl, rfl, rfl⟩
  obtain ⟨s, os, hrun, hstate, hphase⟩ := hrun
  exact ⟨s, os, hrun, .inr ⟨hphase, rfl⟩, (committed_state_delivered hrun hstate).2.1⟩

end

end Firmware
end GarageDoor
