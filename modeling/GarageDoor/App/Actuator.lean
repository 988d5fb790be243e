/-
The door actuator task.

The task awaits three things: a command, the timer of a pulse, and nothing else.
Its machine takes one step for each reading of the clock, so every reading may be
later than the one before it by any amount.  The timer resolves no earlier than
it was set for.
-/
import GarageDoor.Core.Door.Interlock
import GarageDoor.Library.Clock
import GarageDoor.Library.Trace

namespace GarageDoor
namespace Actuator

open Library Door

inductive Level where
  | low
  | high
  deriving DecidableEq, Repr

/-- Where the task stands in its loop body. -/
inductive Phase where
  /-- Awaiting `rx.receive()`. -/
  | receiving
  /-- The trigger was accepted and its action is about to be applied. -/
  | asserting (action : RelayAction)
  /-- Awaiting the pulse timer, which expires at `until`. -/
  | pulsing (expiresAt : Nat)
  /-- The relay is low again and the interlock is about to be polled. -/
  | reconciling
  deriving DecidableEq, Repr

inductive Event where
  | receive (command : DoorCommand)
  | assert
  | wake
  | reconcile
  deriving DecidableEq

inductive Observation where
  | received (command : DoorCommand)
  | verdict (nowMs : Nat) (result : Except TriggerRejection RelayAction)
  | pin (level : Level)

structure Task where
  phase : Phase
  relay : Level
  interlock : RelayInterlock
  clock : Instant

/-- The level a policy-issued action drives the relay output to. -/
def apply : RelayAction → Level
  | .assertHigh => .high
  | .deassertLow => .low

/-- Start deasserted so boot can never fire the door. -/
def start : Task :=
  { phase := .receiving, relay := .low, interlock := RelayInterlock.new, clock := 0 }

def onTrigger (s : Task) (now : Nat) : Task × List Observation :=
  let (ended, interlock) := s.interlock.poll now
  let relay := (ended.map apply).getD s.relay
  let pins := ended.toList.map fun action => .pin (apply action)
  match interlock.trigger now with
  | (.ok action, interlock) =>
    ({ s with phase := .asserting action, relay, interlock },
      pins ++ [.verdict now (.ok action)])
  | (.error reason, interlock) =>
    ({ s with phase := .receiving, relay, interlock },
      pins ++ [.verdict now (.error reason)])

def step (s : Task) (e : Timed Event) : Option (Task × List Observation) :=
  if s.clock ≤ e.time then
    match s.phase, e.event with
    | .receiving, .receive .trigger =>
      let (s', os) := onTrigger { s with clock := e.time } e.time.millis
      some (s', .received .trigger :: os)
    | .receiving, .receive .queryStatus =>
      some ({ s with clock := e.time }, [.received .queryStatus])
    | .asserting action, .assert =>
      some ({ s with phase := .pulsing (e.time.val + relayPulseMs * 1000),
                     relay := apply action, clock := e.time },
        [.pin (apply action)])
    | .pulsing expiresAt, .wake =>
      if expiresAt ≤ e.time.val then
        some ({ s with phase := .reconciling, relay := apply .deassertLow, clock := e.time },
          [.pin (apply .deassertLow)])
      else
        none
    | .reconciling, .reconcile =>
      some ({ s with phase := .receiving, interlock := (s.interlock.poll e.time.millis).2,
                     clock := e.time },
        [])
    | _, _ => none
  else
    none

def actuatorTask : Machine Task (Timed Event) Observation where
  start := start
  step := step

/-! ## What the trace of a run looks like -/

def Observation.received? : Observation → Option DoorCommand
  | .received command => some command
  | _ => none

/-- The commands that were received, in order. -/
def received (os : List Observation) : List DoorCommand := os.filterMap Observation.received?

def Observation.judged? : Observation → Option Nat
  | .verdict now _ => some now
  | _ => none

/-- The milliseconds that triggers were judged by, in order. -/
def judged (os : List Observation) : List Nat := os.filterMap Observation.judged?

def Observation.level? : Observation → Option Level
  | .pin level => some level
  | _ => none

/-- The level that the last write left the pin at; it was low at the start. -/
def written (os : List Observation) : Level :=
  (os.filterMap Observation.level?).getLast?.getD .low

/-- The command that an event receives. -/
def Event.commands : Event → List DoorCommand
  | .receive command => [command]
  | _ => []

/-- The millisecond at which an event dequeues a trigger. -/
def triggered (e : Timed Event) : List Nat :=
  match e.event with
  | .receive .trigger => [e.time.millis]
  | _ => []

/-- The milliseconds at which triggers were accepted. -/
def accepted (os : List Observation) : List Nat :=
  os.filterMap fun
    | .verdict now (.ok _) => some now
    | _ => none

/-- The observations of whole loop iterations: an ignored query, a rejected
trigger, or an accepted trigger with one high and one low write to the pin. -/
inductive Cycles : List Observation → Prop where
  | nil : Cycles []
  | query {os} : Cycles os → Cycles (os ++ [.received .queryStatus])
  | rejected {os} (now : Nat) (reason : TriggerRejection) : Cycles os →
      Cycles (os ++ [.received .trigger, .verdict now (.error reason)])
  | pulse {os} (now : Nat) : Cycles os →
      Cycles (os ++ [.received .trigger, .verdict now (.ok .assertHigh),
        .pin .high, .pin .low])

/-- A trigger is accepted exactly when a pulse and a cooldown have passed since
the last accepted one. -/
def RateLimited : List Observation → Prop :=
  EachAfter fun pre o => ∀ now result, o = .verdict now result →
    (result = .ok .assertHigh ↔
      ∀ a ∈ (accepted pre).getLast?, a + (relayPulseMs + relayCooldownMs) ≤ now)

/-! ## One step -/

/-- What a trigger does at an interlock with no armed pulse. -/
theorem onTrigger_idle {s : Task} (now : Nat) (hs : s.interlock.pulseEndMs = none) :
    (∃ c reason, s.interlock.cooldownEndMs = some c ∧ now < c ∧
      onTrigger s now =
        ({ s with phase := .receiving }, [.verdict now (.error reason)])) ∨
    ((∀ c, s.interlock.cooldownEndMs = some c → c ≤ now) ∧
      onTrigger s now =
        ({ s with phase := .asserting .assertHigh,
                  interlock := { pulseEndMs := some (wrap64 (now + relayPulseMs)),
                                 cooldownEndMs := none } },
          [.verdict now (.ok .assertHigh)])) := by
  have hpoll : s.interlock.poll now = (none, s.interlock) :=
    RelayInterlock.poll_none (by simp [hs])
  rcases RelayInterlock.trigger_cases s.interlock now with
    ⟨e, he, _, _⟩ | ⟨_, c, hc, hlt, ht⟩ | ⟨_, hdone, ht⟩
  · rw [hs] at he
    cases he
  · exact .inl ⟨c, .cooldown ((c - now) % 2 ^ 32), hc, hlt, by simp [onTrigger, hpoll, ht]⟩
  · exact .inr ⟨hdone, by simp [onTrigger, hpoll, ht]⟩

/-- The writes to the pin come before the verdict. -/
theorem onTrigger_observations (s : Task) (now : Nat) :
    ∃ (ended : Option RelayAction) (result : Except TriggerRejection RelayAction),
      (onTrigger s now).2 =
        (ended.toList.map fun action => .pin (apply action)) ++ [.verdict now result] := by
  refine ⟨(s.interlock.poll now).1, ((s.interlock.poll now).2.trigger now).1, ?_⟩
  unfold onTrigger
  rcases s.interlock.poll now with ⟨ended, interlock⟩
  simp only
  rcases interlock.trigger now with ⟨reason | action, interlock⟩ <;> rfl

theorem step_cases {s s' : Task} {e : Timed Event} {o : List Observation}
    (h : step s e = some (s', o)) :
    s.clock ≤ e.time ∧
    ((s.phase = .receiving ∧ e.event = .receive .trigger ∧
        s' = (onTrigger { s with clock := e.time } e.time.millis).1 ∧
        o = .received .trigger :: (onTrigger { s with clock := e.time } e.time.millis).2) ∨
      (s.phase = .receiving ∧ e.event = .receive .queryStatus ∧
        s' = { s with clock := e.time } ∧ o = [.received .queryStatus]) ∨
      (∃ action, s.phase = .asserting action ∧ e.event = .assert ∧
        s' = { s with phase := .pulsing (e.time.val + relayPulseMs * 1000),
                      relay := apply action, clock := e.time } ∧
        o = [.pin (apply action)]) ∨
      (∃ expiresAt, s.phase = .pulsing expiresAt ∧ e.event = .wake ∧ expiresAt ≤ e.time.val ∧
        s' = { s with phase := .reconciling, relay := .low, clock := e.time } ∧
        o = [.pin .low]) ∨
      (s.phase = .reconciling ∧ e.event = .reconcile ∧
        s' = { s with phase := .receiving,
                      interlock := (s.interlock.poll e.time.millis).2, clock := e.time } ∧
        o = [])) := by
  unfold step at h
  split at h
  · next hclock =>
    refine ⟨hclock, ?_⟩
    split at h
    · next hp he =>
      simp only [Option.some.injEq, Prod.mk.injEq] at h
      exact .inl ⟨hp, he, h.1.symm, h.2.symm⟩
    · next hp he =>
      simp only [Option.some.injEq, Prod.mk.injEq] at h
      exact .inr (.inl ⟨hp, he, h.1.symm, h.2.symm⟩)
    · next action hp he =>
      simp only [Option.some.injEq, Prod.mk.injEq] at h
      exact .inr (.inr (.inl ⟨action, hp, he, h.1.symm, h.2.symm⟩))
    · next expiresAt hp he =>
      split at h
      · next hle =>
        simp only [Option.some.injEq, Prod.mk.injEq] at h
        exact .inr (.inr (.inr (.inl ⟨expiresAt, hp, he, hle, h.1.symm, h.2.symm⟩)))
      · cases h
    · next hp he =>
      simp only [Option.some.injEq, Prod.mk.injEq] at h
      exact .inr (.inr (.inr (.inr ⟨hp, he, h.1.symm, h.2.symm⟩)))
    · cases h
  · cases h

/-! ## What is heard

Each receive of a run is observed once, and a trigger is judged by the clock reading of the
event that dequeued it. -/

@[simp] theorem received_append (os os' : List Observation) :
    received (os ++ os') = received os ++ received os' :=
  List.filterMap_append

@[simp] theorem judged_append (os os' : List Observation) :
    judged (os ++ os') = judged os ++ judged os' :=
  List.filterMap_append

theorem filterMap_pins {β : Type} {f : Observation → Option β}
    (hf : ∀ level, f (.pin level) = none) (actions : List RelayAction) :
    (actions.map fun action => .pin (apply action)).filterMap f = [] :=
  List.filterMap_eq_nil_iff.mpr fun o ho => by
    obtain ⟨action, -, rfl⟩ := List.mem_map.mp ho
    exact hf _

theorem received_onTrigger (s : Task) (now : Nat) : received (onTrigger s now).2 = [] := by
  obtain ⟨ended, result, heq⟩ := onTrigger_observations s now
  rw [heq, received_append, received, filterMap_pins fun _ => rfl]
  rfl

theorem judged_onTrigger (s : Task) (now : Nat) : judged (onTrigger s now).2 = [now] := by
  obtain ⟨ended, result, heq⟩ := onTrigger_observations s now
  rw [heq, judged_append, judged, filterMap_pins fun _ => rfl]
  rfl

theorem received_step {s s' : Task} {e : Timed Event} {os : List Observation}
    (h : step s e = some (s', os)) : received os = e.event.commands := by
  obtain ⟨-, hcase⟩ := step_cases h
  rcases hcase with ⟨-, he, -, rfl⟩ | ⟨-, he, -, rfl⟩ | ⟨action, -, he, -, rfl⟩ |
    ⟨expiresAt, -, he, -, -, rfl⟩ | ⟨-, he, -, rfl⟩ <;> rw [he]
  · exact congrArg (DoorCommand.trigger :: ·) (received_onTrigger _ _)
  all_goals rfl

theorem judged_step {s s' : Task} {e : Timed Event} {os : List Observation}
    (h : step s e = some (s', os)) : judged os = triggered e := by
  obtain ⟨-, hcase⟩ := step_cases h
  rcases hcase with ⟨-, he, -, rfl⟩ | ⟨-, he, -, rfl⟩ | ⟨action, -, he, -, rfl⟩ |
    ⟨expiresAt, -, he, -, -, rfl⟩ | ⟨-, he, -, rfl⟩ <;> rw [triggered, he]
  · exact judged_onTrigger _ _
  all_goals rfl

theorem written_append (os os' : List Observation) :
    written (os ++ os') = (os'.filterMap Observation.level?).getLast?.getD (written os) := by
  rw [written, List.filterMap_append, List.getLast?_append, written]
  cases (os'.filterMap Observation.level?).getLast? <;> rfl

theorem relay_onTrigger (s : Task) (now : Nat) :
    (onTrigger s now).1.relay =
      ((onTrigger s now).2.filterMap Observation.level?).getLast?.getD s.relay := by
  unfold onTrigger
  rcases s.interlock.poll now with ⟨ended, interlock⟩
  simp only
  rcases interlock.trigger now with ⟨reason | action, interlock⟩ <;> cases ended <;> rfl

theorem relay_step {s s' : Task} {e : Timed Event} {os : List Observation}
    (h : step s e = some (s', os)) :
    s'.relay = (os.filterMap Observation.level?).getLast?.getD s.relay := by
  obtain ⟨-, hcase⟩ := step_cases h
  rcases hcase with ⟨-, -, rfl, rfl⟩ | ⟨-, -, rfl, rfl⟩ | ⟨action, -, -, rfl, rfl⟩ |
    ⟨expiresAt, -, -, -, rfl, rfl⟩ | ⟨-, -, rfl, rfl⟩
  · exact relay_onTrigger _ _
  all_goals rfl

/-- The relay is where the writes to its pin left it. -/
theorem relay_run {es : List (Timed Event)} {s : Task} {os : List Observation}
    (hrun : actuatorTask.run es = some (s, os)) : s.relay = written os := by
  refine Machine.run_history (m := actuatorTask) (I := fun s _ os => s.relay = written os)
    rfl ?_ hrun
  intro s es os e s' o hrelay hs
  rw [written_append, ← hrelay, relay_step hs]

theorem heard_run {es : List (Timed Event)} {s : Task} {os : List Observation}
    (hrun : actuatorTask.run es = some (s, os)) :
    received os = es.flatMap (·.event.commands) ∧ judged os = es.flatMap triggered := by
  refine Machine.run_history (m := actuatorTask)
    (I := fun _ es os =>
      received os = es.flatMap (·.event.commands) ∧ judged os = es.flatMap triggered)
    ⟨rfl, rfl⟩ ?_ hrun
  rintro s es os e s' o ⟨hreceived, hjudged⟩ hs
  rw [received_append, judged_append, List.flatMap_append, List.flatMap_append,
    List.flatMap_singleton, List.flatMap_singleton, hreceived, hjudged, received_step hs,
    judged_step hs]
  exact ⟨rfl, rfl⟩

/-! ## The invariant -/

/-- The observations of an iteration whose trigger was accepted at `a`, as far as
its first `n` entries. -/
def pulseTurn (a n : Nat) : List Observation :=
  [.received .trigger, .verdict a (.ok .assertHigh), .pin .high, .pin .low].take n

/-- The task is `n` observations into the iteration that accepted at `a`. -/
structure Within (a n : Nat) (s : Task) (os : List Observation) : Prop where
  turns : ∃ done, Cycles done ∧ os = done ++ pulseTurn a n
  interlock : s.interlock = { pulseEndMs := some (a + relayPulseMs), cooldownEndMs := none }

structure AtRest (s : Task) (os : List Observation) : Prop where
  relay : s.relay = .low
  interlock : s.interlock =
    { pulseEndMs := none,
      cooldownEndMs := (accepted os).getLast?.map (· + (relayPulseMs + relayCooldownMs)) }
  turns : Cycles os

def Inv (s : Task) (os : List Observation) : Prop :=
  RateLimited os ∧
  match s.phase with
  | .receiving => AtRest s os
  | .asserting action => action = .assertHigh ∧ s.relay = .low ∧
      ∃ a, Within a 2 s os ∧ a ≤ s.clock.millis
  | .pulsing expiresAt => s.relay = .high ∧
      ∃ a, Within a 3 s os ∧ (a + relayPulseMs) * 1000 ≤ expiresAt
  | .reconciling => s.relay = .low ∧
      ∃ a, Within a 4 s os ∧ a + relayPulseMs ≤ s.clock.millis

@[simp] theorem accepted_append (os os' : List Observation) :
    accepted (os ++ os') = accepted os ++ accepted os' :=
  List.filterMap_append

theorem RateLimited.snoc {os : List Observation} {o : Observation} (h : RateLimited os)
    (ho : ∀ now result, o = .verdict now result →
      (result = .ok .assertHigh ↔
        ∀ a ∈ (accepted os).getLast?, a + (relayPulseMs + relayCooldownMs) ≤ now)) :
    RateLimited (os ++ [o]) :=
  eachAfter_snoc.mpr ⟨h, ho⟩

theorem RateLimited.pin {os : List Observation} (h : RateLimited os) (level : Level) :
    RateLimited (os ++ [.pin level]) :=
  h.snoc (by simp)

theorem RateLimited.received {os : List Observation} (h : RateLimited os)
    (command : DoorCommand) : RateLimited (os ++ [.received command]) :=
  h.snoc (by simp)

theorem inv_start : Inv start [] :=
  ⟨eachAfter_nil _, rfl, rfl, .nil⟩

/-- A trigger dequeued at rest: the cooldown deadline decides, and it is exactly
one pulse and one cooldown after the last acceptance. -/
theorem inv_trigger {s : Task} {os : List Observation} {t : Instant}
    (hrate : RateLimited os) (hrest : AtRest s os) :
    Inv (onTrigger { s with clock := t } t.millis).1
      (os ++ .received .trigger :: (onTrigger { s with clock := t } t.millis).2) := by
  have hpulse : s.interlock.pulseEndMs = none := by rw [hrest.interlock]
  have hcool : s.interlock.cooldownEndMs =
      (accepted os).getLast?.map (· + (relayPulseMs + relayCooldownMs)) := by
    rw [hrest.interlock]
  have hacc : (accepted (os ++ [Observation.received .trigger])).getLast? =
      (accepted os).getLast? := by
    simp [accepted]
  rcases onTrigger_idle (s := { s with clock := t }) t.millis hpulse with
    ⟨c, reason, hc, hlt, heq⟩ | ⟨hdone, heq⟩
  · rw [heq]
    simp only
    rw [hcool, Option.map_eq_some_iff] at hc
    obtain ⟨a, ha, rfl⟩ := hc
    have hturn := Cycles.rejected t.millis reason hrest.turns
    refine ⟨?_, hrest.relay, ?_, hturn⟩
    · have := (hrate.received .trigger).snoc (o := .verdict t.millis (.error reason)) (by
        rintro now result ⟨⟩
        rw [hacc, ha]
        simp only [reduceCtorEq, Option.mem_def, Option.some.injEq, forall_eq', false_iff]
        omega)
      simpa using this
    · simp [hrest.interlock, accepted]
  · rw [heq]
    simp only
    have hlt := t.millis_lt
    refine ⟨?_, rfl, hrest.relay, t.millis, ⟨⟨os, hrest.turns, rfl⟩, ?_⟩, Nat.le_refl _⟩
    · have := (hrate.received .trigger).snoc (o := .verdict t.millis (.ok .assertHigh)) (by
        rintro now result ⟨⟩
        rw [hacc]
        simp only [true_iff]
        intro a ha
        exact hdone _ (by rw [hcool, Option.mem_def.mp ha]; rfl))
      simpa using this
    · rw [RelayInterlock.wrap64_of_lt (by simp only [relayPulseMs]; omega)]

theorem inv_step {s s' : Task} {os o : List Observation} {e : Timed Event}
    (h : Inv s os) (hs : step s e = some (s', o)) : Inv s' (os ++ o) := by
  obtain ⟨hrate, hphase⟩ := h
  obtain ⟨hclock, hcase⟩ := step_cases hs
  have hms := Instant.millis_mono hclock
  rcases hcase with ⟨hp, -, rfl, rfl⟩ | ⟨hp, -, rfl, rfl⟩ | ⟨action, hp, -, rfl, rfl⟩ |
    ⟨expiresAt, hp, -, hle, rfl, rfl⟩ | ⟨hp, -, rfl, rfl⟩ <;>
    rw [hp] at hphase <;> simp only at hphase
  · exact inv_trigger hrate hphase
  · refine ⟨hrate.received _, ?_⟩
    simp only [hp]
    exact ⟨hphase.relay, by simp [hphase.interlock, accepted], hphase.turns.query⟩
  · obtain ⟨rfl, _, a, hw, ha⟩ := hphase
    obtain ⟨done, hdone, rfl⟩ := hw.turns
    refine ⟨hrate.pin _, rfl, a, ⟨⟨done, hdone, ?_⟩, hw.interlock⟩, ?_⟩
    · simp [pulseTurn, apply]
    · unfold Instant.millis at hms ha
      omega
  · obtain ⟨_, a, hw, ha⟩ := hphase
    obtain ⟨done, hdone, rfl⟩ := hw.turns
    refine ⟨hrate.pin _, rfl, a, ⟨⟨done, hdone, ?_⟩, hw.interlock⟩, ?_⟩
    · simp [pulseTurn]
    · show a + relayPulseMs ≤ e.time.millis
      unfold Instant.millis
      omega
  · obtain ⟨hlow, a, hw, ha⟩ := hphase
    obtain ⟨done, hdone, rfl⟩ := hw.turns
    have hlt := e.time.millis_lt
    have hpoll := RelayInterlock.poll_some (s := s.interlock) (by rw [hw.interlock])
      (Nat.le_trans ha hms : _ ≤ e.time.millis)
    refine ⟨by simpa using hrate, hlow, ?_, ?_⟩
    · rw [hpoll, RelayInterlock.wrap64_of_lt (by simp only [relayCooldownMs]; omega)]
      simp [accepted, pulseTurn, Nat.add_assoc]
    · rw [List.append_nil]
      exact hdone.pulse a

/-- What holds of every run of the task. -/
theorem inv_run {es : List (Timed Event)} {s : Task} {os : List Observation}
    (hrun : actuatorTask.run es = some (s, os)) : Inv s os :=
  Machine.run_history (m := actuatorTask) (I := fun s _ os => Inv s os) inv_start
    (fun hI hs => inv_step hI hs) hrun

/-- The trace is whole iterations, then a part of one whose trigger was accepted. -/
theorem turns_of_run {es : List (Timed Event)} {s : Task} {os : List Observation}
    (hrun : actuatorTask.run es = some (s, os)) :
    ∃ done a n, Cycles done ∧ os = done ++ pulseTurn a n := by
  obtain ⟨-, hphase⟩ := inv_run hrun
  cases hp : s.phase with
  | receiving =>
    rw [hp] at hphase
    exact ⟨os, 0, 0, hphase.turns, by simp [pulseTurn]⟩
  | asserting action =>
    rw [hp] at hphase
    obtain ⟨_, _, a, hw, _⟩ := hphase
    obtain ⟨done, hdone, rfl⟩ := hw.turns
    exact ⟨done, a, 2, hdone, rfl⟩
  | pulsing expiresAt =>
    rw [hp] at hphase
    obtain ⟨_, a, hw, _⟩ := hphase
    obtain ⟨done, hdone, rfl⟩ := hw.turns
    exact ⟨done, a, 3, hdone, rfl⟩
  | reconciling =>
    rw [hp] at hphase
    obtain ⟨_, a, hw, _⟩ := hphase
    obtain ⟨done, hdone, rfl⟩ := hw.turns
    exact ⟨done, a, 4, hdone, rfl⟩

/-- Whatever is sent and however late every wake-up is: the task waits for a
command only with the relay low and no pulse armed, the trace is whole iterations
followed by a part of one accepted pulse, and the interlock admits exactly the
triggers a pulse and a cooldown apart.  The commands and the verdicts of the trace
are those of the events, each trigger judged by the millisecond of its dequeue, and
the relay is where the trace's writes left it. -/
theorem actuatorTask_rate_limited {es : List (Timed Event)} {s : Task}
    {os : List Observation} (hrun : actuatorTask.run es = some (s, os)) :
    (s.phase = .receiving →
      s.relay = .low ∧ s.interlock.pulseEndMs = none ∧ Cycles os) ∧
    (∃ done a n, Cycles done ∧ os = done ++ pulseTurn a n) ∧
    RateLimited os ∧
    received os = es.flatMap (·.event.commands) ∧
    judged os = es.flatMap triggered ∧
    s.relay = written os := by
  obtain ⟨hrate, hphase⟩ := inv_run hrun
  obtain ⟨hreceived, hjudged⟩ := heard_run hrun
  refine ⟨fun hp => ?_, turns_of_run hrun, hrate, hreceived, hjudged, relay_run hrun⟩
  rw [hp] at hphase
  exact ⟨hphase.relay, by rw [hphase.interlock], hphase.turns⟩

/-- Two triggers a pulse and a cooldown apart, the first at the very end of a
millisecond and its timer on time, and one between them that comes too early. -/
theorem actuatorTask_rate_limited_pair :
    let os : List Observation :=
      [.received .trigger, .verdict 1000 (.ok .assertHigh), .pin .high, .pin .low,
        .received .trigger, .verdict 3599 (.error (.cooldown 1)),
        .received .trigger, .verdict 3600 (.ok .assertHigh)]
    RateLimited os ∧ received os = [.trigger, .trigger, .trigger] ∧
      judged os = [1000, 3599, 3600] ∧ Level.low = written os :=
  (@actuatorTask_rate_limited
    [⟨1000999, .receive .trigger⟩, ⟨1000999, .assert⟩, ⟨1600999, .wake⟩,
      ⟨1600999, .reconcile⟩, ⟨3599999, .receive .trigger⟩, ⟨3600000, .receive .trigger⟩]
    ⟨.asserting .assertHigh, .low,
      { pulseEndMs := some 4200, cooldownEndMs := none }, 3600000⟩ _ (by rfl)).2.2

end Actuator
end GarageDoor
