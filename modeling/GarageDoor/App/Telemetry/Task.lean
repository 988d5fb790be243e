/-
The telemetry task.

The phases are the await points of `telemetry_task`, with those of `publish_state` and
`fail_backoff` in line.  The messages a connection has received and the task has not are
its inbox.
-/
import GarageDoor.App.Telemetry.Status
import GarageDoor.App.Wifi.Supervisor
import GarageDoor.Core.Door.Interlock
import GarageDoor.Library.Signal

namespace GarageDoor
namespace Telemetry

open Library Ascii Mqtt Door

def initialBackoff : Nat := 1000
def maxBackoff : Nat := 30000

structure Message where
  topic : String
  payload : List UInt8
  retained : Bool
  deriving DecidableEq

inductive Phase where
  /-- Inside `wait_config_up`. -/
  | awaitingConfig
  | resolving
  /-- Inside the TCP connect. -/
  | connecting
  | openingSession
  | subscribing
  | publishingSnapshot
  /-- Awaiting a message or a state. -/
  | selecting
  | sendingCommand
  | publishingChange
  | publishingStatus
  | backingOff (expiresAt : Nat)
  deriving DecidableEq, Repr

inductive Event where
  | configUp
  | resolved
  | resolvedEmpty
  | dnsFailed
  | tcpConnected
  | tcpFailed
  /-- The broker may have kept the session of an earlier connection. -/
  | sessionConnected (resumed : Bool)
  | sessionFailed
  | subscribed
  | subscribeFailed
  | published
  | publishFailed
  /-- The connection receives a message. -/
  | arrived (message : Message)
  /-- The select completes. -/
  | selected
  | receiveFailed
  | sent
  | waited
  deriving DecidableEq

inductive Observation where
  /-- Handed to the connection to publish. -/
  | published (topic : String) (payload : Text)
  | commandSent (command : DoorCommand)
  | resetRequested
  | rejoinRequested
  | backingOff (ms : Nat)
  deriving DecidableEq

/-- The signals that tasks share. -/
structure Signals where
  doorState : Signal DoorState
  wifiRejoin : Signal Unit
  resetRequest : Signal Unit
  deriving DecidableEq

def Signals.new : Signals := { doorState := .new, wifiRejoin := .new, resetRequest := .new }

structure Task where
  phase : Phase
  backoff : Nat
  rejoin : Wifi.RejoinCounter
  current : Option DoorState
  inbox : List Message
  deriving DecidableEq

def start : Task :=
  { phase := .awaitingConfig, backoff := initialBackoff, rejoin := .new, current := none,
    inbox := [] }

/-- The task, the signals and what was observed, after it ran to its next await. -/
abbrev Ran : Type := Task × Signals × List Observation

/-- A step that touches no signal. -/
def Task.at (s : Task) (signals : Signals) (phase : Phase) : Ran :=
  ({ s with phase }, signals, [])

def failBackoff (t : Instant) (s : Task) (signals : Signals) : Ran :=
  let (tripped, rejoin) := s.rejoin.failure
  let s := { s with phase := .backingOff (Wifi.after t s.backoff), rejoin }
  if tripped then
    (s, { signals with wifiRejoin := signals.wifiRejoin.signal () },
      [.rejoinRequested, .backingOff s.backoff])
  else
    (s, signals, [.backingOff s.backoff])

/-- Starts to publish a state on `onchange`. -/
def publishState (s : Task) (signals : Signals) (state : DoorState) (phase : Phase) : Ran :=
  match formatOnchange (isOpen state) (Vector.replicate payloadMax 0) with
  | .ok payload _ => ({ s with phase }, signals, [.published topicOnchange payload])
  | _ => s.at signals .selecting

/-- Refreshes the cached state and publishes it, on a new connection. -/
def publishSnapshot (s : Task) (signals : Signals) : Ran :=
  let (taken, doorState) := signals.doorState.tryTake
  let s := { s with current := taken.or s.current }
  let signals := { signals with doorState }
  match s.current with
  | some state => publishState s signals state .publishingSnapshot
  | none => s.at signals .selecting

def sessionConnected (s : Task) (signals : Signals) (resumed : Bool) : Ran :=
  let s := { s with backoff := initialBackoff, rejoin := s.rejoin.success, inbox := [] }
  if resumed then publishSnapshot s signals else s.at signals .subscribing

/-- The receive branch is polled first. -/
def select (s : Task) (signals : Signals) : Option (Action × Task × Signals) :=
  match s.inbox with
  | message :: inbox =>
    let action := if message.retained then .unknown else classify message.topic message.payload
    some (action, { s with inbox }, signals)
  | [] =>
    match signals.doorState.wait with
    | some (state, doorState) => some (.stateChange state, s, { signals with doorState })
    | none => none

def act (version : UInt32) (t : Instant) (s : Task) (signals : Signals) : Action → Ran
  | .disconnected => failBackoff t s signals
  | .trigger => s.at signals .sendingCommand
  | .reset =>
    ({ s with phase := .selecting },
      { signals with resetRequest := signals.resetRequest.signal () }, [.resetRequested])
  | .stateChange state =>
    publishState { s with current := some state } signals state .publishingChange
  | .status uuid uuidLen =>
    match statusReply uuid uuidLen s.current version with
    | some (.ok payload _) =>
      ({ s with phase := .publishingStatus }, signals, [.published topicStatusResponse payload])
    -- Not a text, or too long for the buffer.
    | _ => s.at signals .selecting
  | .unknown => s.at signals .selecting

/-- The phases in which the connection stands. -/
def Phase.connected : Phase → Bool
  | .subscribing | .publishingSnapshot | .selecting | .sendingCommand | .publishingChange
  | .publishingStatus => true
  | _ => false

def react (version : UInt32) (t : Instant) (s : Task) (signals : Signals) :
    Phase → Event → Option Ran
  | .awaitingConfig, .configUp => some (s.at signals .resolving)
  | .resolving, .resolved => some (s.at signals .connecting)
  | .resolving, .resolvedEmpty => some (failBackoff t s signals)
  | .resolving, .dnsFailed => some (failBackoff t s signals)
  | .connecting, .tcpConnected => some (s.at signals .openingSession)
  | .connecting, .tcpFailed => some (failBackoff t s signals)
  | .openingSession, .sessionConnected resumed => some (sessionConnected s signals resumed)
  | .openingSession, .sessionFailed => some (failBackoff t s signals)
  | .subscribing, .subscribed => some (publishSnapshot s signals)
  | .subscribing, .subscribeFailed => some (failBackoff t s signals)
  | .publishingSnapshot, .published => some (s.at signals .selecting)
  | .publishingSnapshot, .publishFailed => some (s.at signals .selecting)
  | .selecting, .selected =>
    match select s signals with
    | some (action, s, signals) => some (act version t s signals action)
    | none => none
  | .selecting, .receiveFailed => some (act version t s signals .disconnected)
  | .sendingCommand, .sent =>
    some ({ s with phase := .selecting }, signals, [.commandSent .trigger])
  | .publishingChange, .published => some (s.at signals .selecting)
  | .publishingChange, .publishFailed => some (s.at signals .selecting)
  | .publishingStatus, .published => some (s.at signals .selecting)
  | .publishingStatus, .publishFailed => some (failBackoff t s signals)
  | .backingOff expiresAt, .waited =>
    if expiresAt ≤ t.val then
      some ({ s with phase := .awaitingConfig, backoff := min (s.backoff * 2) maxBackoff },
        signals, [])
    else none
  | phase, .arrived message =>
    if phase.connected then some ({ s with inbox := s.inbox ++ [message] }, signals, []) else none
  | _, _ => none

/-! ## What a step does -/

/-- An await that goes on to the next one and does nothing else. -/
inductive Advances : Phase → Event → Phase → Prop where
  | configUp : Advances .awaitingConfig .configUp .resolving
  | resolved : Advances .resolving .resolved .connecting
  | tcpConnected : Advances .connecting .tcpConnected .openingSession
  | snapshotPublished : Advances .publishingSnapshot .published .selecting
  | snapshotFailed : Advances .publishingSnapshot .publishFailed .selecting
  | changePublished : Advances .publishingChange .published .selecting
  | changeFailed : Advances .publishingChange .publishFailed .selecting
  | statusPublished : Advances .publishingStatus .published .selecting

/-- An attempt to connect or a connection that fails. -/
inductive Fails : Phase → Event → Prop where
  | resolvedEmpty : Fails .resolving .resolvedEmpty
  | dns : Fails .resolving .dnsFailed
  | tcp : Fails .connecting .tcpFailed
  | session : Fails .openingSession .sessionFailed
  | subscribe : Fails .subscribing .subscribeFailed
  | receive : Fails .selecting .receiveFailed
  | status : Fails .publishingStatus .publishFailed

inductive Steps (version : UInt32) (t : Instant) (s : Task) (signals : Signals) :
    Phase → Event → Ran → Prop where
  | advanced {phase e next} (h : Advances phase e next) :
      Steps version t s signals phase e (s.at signals next)
  | failed {phase e} (h : Fails phase e) :
      Steps version t s signals phase e (failBackoff t s signals)
  | connected {resumed} : Steps version t s signals .openingSession (.sessionConnected resumed)
      (sessionConnected s signals resumed)
  | subscribed : Steps version t s signals .subscribing .subscribed (publishSnapshot s signals)
  | selected {action s₁ signals₁} (h : select s signals = some (action, s₁, signals₁)) :
      Steps version t s signals .selecting .selected (act version t s₁ signals₁ action)
  | sent : Steps version t s signals .sendingCommand .sent
      ({ s with phase := .selecting }, signals, [.commandSent .trigger])
  | waited {expiresAt} (h : expiresAt ≤ t.val) :
      Steps version t s signals (.backingOff expiresAt) .waited
        ({ s with phase := .awaitingConfig, backoff := min (s.backoff * 2) maxBackoff },
          signals, [])
  | arrived {phase message} (h : phase.connected = true) :
      Steps version t s signals phase (.arrived message)
        ({ s with inbox := s.inbox ++ [message] }, signals, [])

section

variable {version : UInt32} {t : Instant} {s : Task} {signals : Signals}

theorem steps_of_react {phase : Phase} {e : Event} {r : Ran}
    (h : react version t s signals phase e = some r) : Steps version t s signals phase e r := by
  unfold react at h
  split at h
  -- The arms that wait for something split once more, on what they wait for.
  all_goals
    first
      | cases h
        first
          | exact .advanced (by constructor)
          | exact .failed (by constructor)
          | exact .connected
          | exact .subscribed
          | exact .sent
      | cases h
      | split at h
        · cases h
          first
            | exact .selected ‹_›
            | exact .waited ‹_›
            | exact .arrived ‹_›
        · cases h

/-- A state is always published as it is. -/
theorem publishState_eq (s : Task) (signals : Signals) (state : DoorState) (phase : Phase) :
    publishState s signals state phase =
      ({ s with phase }, signals, [.published topicOnchange (onchange (isOpen state))]) := by
  have hencodes := formatOnchange_encodes (isOpen state) (Vector.replicate payloadMax 0)
  have hfits : (onchange (isOpen state)).length ≤ payloadMax := by
    cases isOpen state <;> decide
  unfold publishState
  cases hformat : formatOnchange (isOpen state) (Vector.replicate payloadMax 0) with
  | ok payload buf =>
    rw [hformat] at hencodes
    obtain ⟨-, rfl, -⟩ := hencodes
    rfl
  | truncated buf =>
    rw [hformat] at hencodes
    exact absurd hfits (Nat.not_le.mpr hencodes)
  | panic =>
    rw [hformat] at hencodes
    exact hencodes.elim

theorem classify_ne_stateChange (topic : String) (payload : List UInt8) (state : DoorState) :
    classify topic payload ≠ .stateChange state := by
  unfold classify
  repeat' split
  all_goals exact nofun

/-- The select takes a message and leaves the signals alone, or takes the state. -/
theorem select_cases {action : Action} {s₁ : Task} {signals₁ : Signals}
    (h : select s signals = some (action, s₁, signals₁)) :
    (∃ message inbox, s.inbox = message :: inbox ∧ s₁ = { s with inbox } ∧ signals₁ = signals ∧
      action = if message.retained then .unknown else classify message.topic message.payload) ∨
    (∃ state doorState, s.inbox = [] ∧ s₁ = s ∧ action = .stateChange state ∧
      signals.doorState.wait = some (state, doorState) ∧
      signals₁ = { signals with doorState }) := by
  unfold select at h
  cases hinbox : s.inbox with
  | cons message inbox =>
    simp only [hinbox, Option.some.injEq, Prod.mk.injEq] at h
    obtain ⟨rfl, rfl, rfl⟩ := h
    exact .inl ⟨message, inbox, rfl, rfl, rfl, rfl⟩
  | nil =>
    cases hwait : signals.doorState.wait with
    | none => simp [hinbox, hwait] at h
    | some taken =>
      simp only [hinbox, hwait, Option.some.injEq, Prod.mk.injEq] at h
      obtain ⟨rfl, rfl, rfl⟩ := h
      exact .inr ⟨taken.1, taken.2, rfl, rfl, rfl, rfl, rfl⟩

end

end Telemetry
end GarageDoor
