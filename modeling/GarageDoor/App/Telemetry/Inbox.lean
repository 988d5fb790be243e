/-
What the telemetry task does with the messages it gets.

A message is handled at most once, and only a fresh one asks for the door or for an update.
While a trigger waits for the actuator the messages that arrive stay where they are.
-/
import GarageDoor.App.Telemetry.Task

namespace GarageDoor
namespace Telemetry

open Library Mqtt Door

/-- A fresh message on the trigger topic. -/
def Message.triggers (m : Message) : Bool := !m.retained && m.topic == topicTrigger

/-- A fresh message on the reset topic. -/
def Message.resets (m : Message) : Bool := !m.retained && m.topic == topicReset

def Observation.command? : Observation → Option DoorCommand
  | .commandSent command => some command
  | _ => none

/-- The messages that an event makes the task handle. -/
def Task.handles (s : Task) : Event → List Message
  | .selected => s.inbox.head?.toList
  | _ => []

/-- The command that the task waits to send. -/
def Task.inHand (s : Task) : List DoorCommand :=
  if s.phase = .sendingCommand then [.trigger] else []

def commands (os : List Observation) : List DoorCommand := os.filterMap Observation.command?

def resetRequests (os : List Observation) : Nat := os.countP (· == .resetRequested)

/-- Nothing is sent to another task, and nothing is in hand. -/
structure Quiet (signals : Signals) (r : Ran) : Prop where
  phase : r.1.phase ≠ .sendingCommand
  resetRequest : r.2.1.resetRequest = signals.resetRequest
  commands : commands r.2.2 = []
  resets : resetRequests r.2.2 = 0

/-- A message comes in, all of them go with an old connection, one is handled, the command
in hand is sent, or the step is about something else. -/
inductive Takes (s : Task) (signals : Signals) : Event → Ran → Prop where
  | arrived {message} :
      Takes s signals (.arrived message) ({ s with inbox := s.inbox ++ [message] }, signals, [])
  | dropped {resumed r} (hidle : s.inHand = []) (hinbox : r.1.inbox = [])
      (hquiet : Quiet signals r) : Takes s signals (.sessionConnected resumed) r
  | triggered {message inbox} (hidle : s.inHand = []) (hinbox : s.inbox = message :: inbox)
      (htriggers : message.triggers = true) (hresets : message.resets = false) :
      Takes s signals .selected ({ s with inbox, phase := .sendingCommand }, signals, [])
  | reset {message inbox} (hidle : s.inHand = []) (hinbox : s.inbox = message :: inbox)
      (htriggers : message.triggers = false) (hresets : message.resets = true) :
      Takes s signals .selected
        ({ s with inbox, phase := .selecting },
          { signals with resetRequest := signals.resetRequest.signal () }, [.resetRequested])
  | handled {message r} (hidle : s.inHand = []) (hinbox : s.inbox = message :: r.1.inbox)
      (htriggers : message.triggers = false) (hresets : message.resets = false)
      (hquiet : Quiet signals r) : Takes s signals .selected r
  | sent (hphase : s.phase = .sendingCommand) :
      Takes s signals .sent ({ s with phase := .selecting }, signals, [.commandSent .trigger])
  | other {e r} (hidle : s.inHand = []) (hevent : ∀ message, e ≠ .arrived message)
      (hsent : e ≠ .sent) (hnone : s.handles e = []) (hinbox : r.1.inbox = s.inbox)
      (hquiet : Quiet signals r) : Takes s signals e r

section

variable {version : UInt32} {t : Instant} {s : Task} {signals : Signals} {e : Event} {r : Ran}

theorem inHand_of_ne (h : s.phase ≠ .sendingCommand) : s.inHand = [] := if_neg h

theorem inHand_sending (h : s.phase = .sendingCommand) : s.inHand = [.trigger] := if_pos h

theorem quiet_at {phase : Phase} (s : Task) (signals : Signals) (h : phase ≠ .sendingCommand) :
    Quiet signals (s.at signals phase) := ⟨h, rfl, rfl, rfl⟩

theorem quiet_failBackoff (t : Instant) (s : Task) (signals : Signals) :
    Quiet signals (failBackoff t s signals) := by
  unfold failBackoff
  rcases s.rejoin.failure with ⟨_ | _, rejoin⟩
  · exact ⟨by simp, rfl, rfl, rfl⟩
  · exact ⟨by simp, rfl, rfl, rfl⟩

theorem inbox_failBackoff (t : Instant) (s : Task) (signals : Signals) :
    (failBackoff t s signals).1.inbox = s.inbox := by
  unfold failBackoff
  rcases s.rejoin.failure with ⟨_ | _, rejoin⟩ <;> rfl

theorem quiet_publishState {phase : Phase} (s : Task) (signals : Signals) (state : DoorState)
    (h : phase ≠ .sendingCommand) : Quiet signals (publishState s signals state phase) := by
  rw [publishState_eq]
  exact ⟨h, rfl, rfl, rfl⟩

theorem publishSnapshot_quiet (s : Task) (signals : Signals) :
    Quiet signals (publishSnapshot s signals) ∧ (publishSnapshot s signals).1.inbox = s.inbox := by
  simp only [publishSnapshot]
  split
  · rw [publishState_eq]
    exact ⟨⟨by simp, rfl, rfl, rfl⟩, rfl⟩
  · exact ⟨⟨by simp [Task.at], rfl, rfl, rfl⟩, rfl⟩

theorem classify_trigger {topic : String} {payload : List UInt8} :
    classify topic payload = .trigger ↔ topic = topicTrigger := by
  unfold classify
  by_cases h : topic = topicTrigger
  · rw [if_pos h]
    exact ⟨fun _ => h, fun _ => rfl⟩
  · rw [if_neg h]
    refine ⟨fun h' => ?_, fun h' => absurd h' h⟩
    repeat' split at h'
    all_goals cases h'

theorem classify_reset {topic : String} {payload : List UInt8} :
    classify topic payload = .reset ↔ topic = topicReset := by
  have hdistinct : topicReset ≠ topicTrigger := by decide
  unfold classify
  by_cases h : topic = topicReset
  · rw [h, if_neg hdistinct, if_pos rfl]
    exact ⟨fun _ => rfl, fun _ => rfl⟩
  · refine ⟨fun h' => ?_, fun h' => absurd h' h⟩
    rw [if_neg h] at h'
    repeat' split at h'
    all_goals cases h'

/-- What a message makes of the select. -/
def Message.action (m : Message) : Action :=
  if m.retained then .unknown else classify m.topic m.payload

theorem action_trigger {m : Message} : m.action = .trigger ↔ m.triggers = true := by
  unfold Message.action Message.triggers
  cases m.retained with
  | true => simp
  | false => simp [classify_trigger]

theorem action_reset {m : Message} : m.action = .reset ↔ m.resets = true := by
  unfold Message.action Message.resets
  cases m.retained with
  | true => simp
  | false => simp [classify_reset]

/-- Any other message keeps the task to itself. -/
theorem quiet_act {action : Action} (htrigger : action ≠ .trigger) (hreset : action ≠ .reset) :
    Quiet signals (act version t s signals action) ∧
      (act version t s signals action).1.inbox = s.inbox := by
  cases action with
  | trigger => exact absurd rfl htrigger
  | reset => exact absurd rfl hreset
  | status uuid uuidLen =>
    simp only [act]
    split
    · exact ⟨⟨by simp, rfl, rfl, rfl⟩, rfl⟩
    · exact ⟨⟨by simp [Task.at], rfl, rfl, rfl⟩, rfl⟩
  | stateChange state =>
    refine ⟨quiet_publishState _ signals state (by simp), ?_⟩
    simp only [act, publishState_eq]
  | disconnected => exact ⟨quiet_failBackoff t s signals, inbox_failBackoff t s signals⟩
  | unknown => exact ⟨quiet_at s signals (by simp), rfl⟩

theorem takes_selected {action : Action} {s₁ : Task} {signals₁ : Signals}
    (hidle : s.inHand = []) (h : select s signals = some (action, s₁, signals₁)) :
    Takes s signals .selected (act version t s₁ signals₁ action) := by
  rcases select_cases h with ⟨message, inbox, hinbox, rfl, rfl, haction⟩ |
    ⟨state, doorState, hinbox, rfl, rfl, hwait, rfl⟩
  · have haction : action = message.action := haction
    by_cases htrigger : message.action = .trigger
    · rw [haction, htrigger]
      have hresets : message.resets = false := by
        rw [← Bool.not_eq_true, ← action_reset, htrigger]
        simp
      exact .triggered hidle hinbox (action_trigger.mp htrigger) hresets
    by_cases hreset : message.action = .reset
    · rw [haction, hreset]
      have htriggers : message.triggers = false := by
        rw [← Bool.not_eq_true, ← action_trigger]
        exact htrigger
      exact .reset hidle hinbox htriggers (action_reset.mp hreset)
    · obtain ⟨hquiet, hkept⟩ : Quiet signals₁ (act version t { s with inbox } signals₁
          message.action) ∧ (act version t { s with inbox } signals₁ message.action).1.inbox =
            inbox := quiet_act htrigger hreset
      have htriggers : message.triggers = false := by
        rw [← Bool.not_eq_true, ← action_trigger]
        exact htrigger
      have hresets : message.resets = false := by
        rw [← Bool.not_eq_true, ← action_reset]
        exact hreset
      rw [haction]
      exact .handled hidle (by rw [hkept, hinbox]) htriggers hresets hquiet
  · have hquiet : Quiet { signals with doorState }
        (act version t s₁ { signals with doorState } (.stateChange state)) :=
      quiet_publishState _ _ state (by simp)
    refine .other hidle (by simp) (by simp) (by simp [Task.handles, hinbox]) ?_
      ⟨hquiet.phase, hquiet.resetRequest, hquiet.commands, hquiet.resets⟩
    simp only [act, publishState_eq]

/-- A step that neither receives, selects nor sends. -/
theorem takes_own (hidle : s.inHand = [])
    (hevent : (∃ next, Advances s.phase e next) ∨ Fails s.phase e)
    (hinbox : r.1.inbox = s.inbox) (hquiet : Quiet signals r) : Takes s signals e r := by
  refine .other hidle ?_ ?_ ?_ hinbox hquiet
  all_goals
    generalize s.phase = phase at hevent
    rcases hevent with ⟨next, h⟩ | h <;> cases h <;> simp [Task.handles]

theorem takes_of_react (h : react version t s signals s.phase e = some r) :
    Takes s signals e r := by
  have hsteps := steps_of_react h
  have hidle : s.phase ≠ .sendingCommand → s.inHand = [] := inHand_of_ne
  generalize hphase : s.phase = phase at hsteps hidle
  cases hsteps with
  | @advanced _ _ next hadvances =>
    refine takes_own (hidle ?_) (.inl ⟨next, hphase ▸ hadvances⟩) rfl (quiet_at s signals ?_)
    · rintro rfl
      cases hadvances
    · rintro rfl
      cases hadvances
  | failed hfails =>
    refine takes_own (hidle ?_) (.inr (hphase ▸ hfails)) (inbox_failBackoff t s signals)
      (quiet_failBackoff t s signals)
    rintro rfl
    cases hfails
  | @connected resumed =>
    cases resumed
    · exact .dropped (hidle (by simp)) rfl ⟨by simp [sessionConnected, Task.at], rfl, rfl, rfl⟩
    · obtain ⟨hquiet, hinbox⟩ := publishSnapshot_quiet
        { s with backoff := initialBackoff, rejoin := s.rejoin.success, inbox := [] } signals
      exact .dropped (hidle (by simp)) hinbox hquiet
  | subscribed =>
    obtain ⟨hquiet, hinbox⟩ := publishSnapshot_quiet s signals
    exact .other (hidle (by simp)) (by simp) (by simp) rfl hinbox hquiet
  | selected hselect => exact takes_selected (hidle (by simp)) hselect
  | sent => exact .sent hphase
  | waited hexpired =>
    exact .other (hidle (by simp)) (by simp) (by simp) rfl rfl ⟨by simp, rfl, rfl, rfl⟩
  | arrived hconnected => exact .arrived

end

end Telemetry
end GarageDoor
