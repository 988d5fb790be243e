/-
From a message to the relay.

Every command the actuator gets stems from a message of its own, nothing on the way is lost
or comes twice, and where the channel is full the actuator makes room in one pulse.
-/
import GarageDoor.App.Device

namespace GarageDoor
namespace Actuator

open Library Door

/-- How often the relay was asserted. -/
def pulses (os : List Observation) : Nat :=
  os.countP fun
    | .pin .high => true
    | _ => false

section

variable {os : List Observation} {s : Task}

@[simp] theorem pulses_append (os os' : List Observation) :
    pulses (os ++ os') = pulses os + pulses os' := List.countP_append

/-- A whole iteration asserts the relay at most once. -/
theorem pulses_le_of_cycles (h : Cycles os) : pulses os ≤ (received os).length := by
  induction h with
  | nil => exact Nat.le_refl 0
  | query h ih =>
    rw [pulses_append, received_append, List.length_append]
    exact Nat.le_trans ih (Nat.le_add_right _ _)
  | rejected now reason h ih =>
    rw [pulses_append, received_append, List.length_append]
    exact Nat.le_trans ih (Nat.le_add_right _ _)
  | pulse now h ih =>
    rw [pulses_append, received_append, List.length_append]
    exact Nat.add_le_add_right ih 1

theorem pulses_pulseTurn (a n : Nat) :
    pulses (pulseTurn a n) ≤ (received (pulseTurn a n)).length := by
  match n with
  | 0 | 1 | 2 | 3 => exact of_decide_eq_true rfl
  | n + 4 =>
    rw [pulseTurn, List.take_of_length_le (by simp)]
    exact Nat.le_refl 1

theorem pulses_le_of_run {es : List (Timed Event)} (h : actuatorTask.run es = some (s, os)) :
    pulses os ≤ (received os).length := by
  obtain ⟨done, a, n, hdone, rfl⟩ := turns_of_run h
  rw [pulses_append, received_append, List.length_append]
  exact Nat.add_le_add (pulses_le_of_cycles hdone) (pulses_pulseTurn a n)

end

end Actuator

namespace Device

open Library Mqtt Door Telemetry

def Observation.handled? : Observation → Option Message
  | .handled message => some message
  | _ => none

/-- The messages that the connection received. -/
def arrived (es : List (Timed Event)) : List Message :=
  es.filterMap fun e =>
    match e.event with
    | .firmware (.telemetry (.arrived message)) => some message
    | _ => none

/-- The messages that were acted on. -/
def handled (os : List Observation) : List Message := os.filterMap Observation.handled?

def received (os : List Observation) : List DoorCommand :=
  Actuator.received (actuatorPart.observations os)

def pulses (os : List Observation) : Nat := Actuator.pulses (actuatorPart.observations os)

/-- The commands that the handled messages ask for. -/
def asked (messages : List Message) : List DoorCommand :=
  (messages.filter Message.triggers).map fun _ => .trigger

/-- Messages are handled in the order of their arrival, and their commands are received,
queued or in hand. -/
structure Ledger (s : Tasks) (es : List (Timed Event)) (os : List Observation) : Prop where
  inOrder : (handled os ++ s.firmware.telemetry.inbox).Sublist (arrived es)
  conserved : asked (handled os) =
    received os ++ s.commands.queue ++ s.firmware.telemetry.inHand

section

variable {version : UInt32} {s s' : Tasks} {e : Timed Event} {es : List (Timed Event)}
  {os o : List Observation}

theorem handled_append (os o : List Observation) : handled (os ++ o) = handled os ++ handled o :=
  List.filterMap_append

theorem received_append (os o : List Observation) :
    received (os ++ o) = received os ++ received o := by
  rw [received, Part.observations, List.filterMap_append, Actuator.received_append]
  rfl

theorem asked_append (messages messages' : List Message) :
    asked (messages ++ messages') = asked messages ++ asked messages' := by
  rw [asked, List.filter_append, List.map_append]
  rfl

theorem arrived_snoc (es : List (Timed Event)) (e : Timed Event) :
    arrived (es ++ [e]) = arrived es ++ arrived [e] := List.filterMap_append

theorem handled_firmware (messages : List Message) (os : List Firmware.Observation) :
    handled (messages.map .handled ++ os.map .firmware) = messages := by
  have hmessages : handled (messages.map .handled) = messages := by
    rw [handled, List.filterMap_map]
    exact List.filterMap_some
  have hrest : handled (os.map .firmware) = [] := by
    refine List.filterMap_eq_nil_iff.mpr fun o ho => ?_
    obtain ⟨x, -, rfl⟩ := List.mem_map.mp ho
    rfl
  rw [handled_append, hmessages, hrest, List.append_nil]

theorem handled_actuator (os : List Actuator.Observation) : handled (os.map .actuator) = [] := by
  refine List.filterMap_eq_nil_iff.mpr fun o ho => ?_
  obtain ⟨x, -, rfl⟩ := List.mem_map.mp ho
  rfl

theorem received_firmware (messages : List Message) (os : List Firmware.Observation) :
    received (messages.map .handled ++ os.map .firmware) = [] := by
  rw [received, observations_firmware]
  rfl

theorem received_actuator (os : List Actuator.Observation) :
    received (os.map .actuator) = Actuator.received os := by
  rw [received, observations_actuator]

theorem ledger_start (bootCheckAllowed : Bool) : Ledger (start bootCheckAllowed) [] [] :=
  ⟨.slnil, rfl⟩

/-- A step that hands nothing over. -/
theorem Ledger.still (h : Ledger s es os) (hcommands : s'.commands = s.commands)
    (htelemetry : s'.firmware.telemetry = s.firmware.telemetry) (hhandled : handled o = [])
    (hreceived : received o = []) : Ledger s' (es ++ [e]) (os ++ o) := by
  constructor
  · rw [handled_append, hhandled, List.append_nil, htelemetry, arrived_snoc]
    exact h.inOrder.trans (List.sublist_append_left _ _)
  · rw [handled_append, hhandled, List.append_nil, received_append, hreceived, List.append_nil,
      hcommands, htelemetry]
    exact h.conserved

/-- The telemetry task and the channel, after a step that it takes. -/
theorem Ledger.takes {t : Instant} {event : Telemetry.Event} {r : Ran}
    {commands : Channel DoorCommand doorCmdCapacity} {os' : List Firmware.Observation}
    (h : Ledger s es os) (hput : s.put (.telemetry event) = some commands)
    (htakes : Takes s.firmware.telemetry s.firmware.signals event r)
    (hcommands : s'.commands = commands) (htelemetry : s'.firmware.telemetry = r.1) :
    Ledger s' (es ++ [{ time := t, event := .firmware (.telemetry event) }])
      (os ++ ((s.handles (.telemetry event)).map .handled ++ os'.map .firmware)) := by
  have horder := h.inOrder
  have hconserved := h.conserved
  constructor
  · rw [handled_append, handled_firmware, htelemetry, arrived_snoc, List.append_assoc]
    cases htakes with
    | @arrived message =>
      rw [← List.append_assoc]
      show ((handled os ++ []) ++ (s.firmware.telemetry.inbox ++ [message])).Sublist
        (arrived es ++ [message])
      rw [List.append_nil, ← List.append_assoc]
      exact horder.append_right [message]
    | dropped hidle hinbox hquiet =>
      rw [hinbox, List.append_nil]
      refine List.Sublist.trans ?_ (horder.trans (List.sublist_append_left _ _))
      exact List.Sublist.append_left (List.nil_sublist _) _
    | triggered hidle hinbox htriggers hresets =>
      refine List.Sublist.trans ?_ (horder.trans (List.sublist_append_left _ _))
      rw [hinbox]
      simp [Tasks.handles, Task.handles, hinbox]
    | reset hidle hinbox htriggers hresets =>
      refine List.Sublist.trans ?_ (horder.trans (List.sublist_append_left _ _))
      rw [hinbox]
      simp [Tasks.handles, Task.handles, hinbox]
    | handled hidle hinbox htriggers hresets hquiet =>
      refine List.Sublist.trans ?_ (horder.trans (List.sublist_append_left _ _))
      simp [Tasks.handles, Task.handles, hinbox]
    | sent hphase => exact horder.trans (List.sublist_append_left _ _)
    | other hidle hevent hsent hnone hinbox hquiet =>
      rw [hinbox, Tasks.handles, hnone, List.nil_append]
      exact horder.trans (List.sublist_append_left _ _)
  · rw [handled_append, handled_firmware, received_append, received_firmware, List.append_nil,
      htelemetry, hcommands, asked_append, hconserved]
    cases htakes with
    | arrived =>
      cases hput
      exact List.append_nil _
    | dropped hidle hinbox hquiet =>
      cases hput
      rw [hidle, inHand_of_ne hquiet.phase]
      exact List.append_nil _
    | triggered hidle hinbox htriggers hresets =>
      cases hput
      simp [Tasks.handles, Task.handles, hinbox, asked, htriggers, hidle, inHand_sending]
    | reset hidle hinbox htriggers hresets =>
      cases hput
      simp [Tasks.handles, Task.handles, hinbox, asked, htriggers, hidle, inHand_of_ne]
    | handled hidle hinbox htriggers hresets hquiet =>
      cases hput
      simp [Tasks.handles, Task.handles, hinbox, asked, htriggers, hidle,
        inHand_of_ne hquiet.phase]
    | sent hphase =>
      have hqueue := (Channel.send_eq_some.mp hput).2
      rw [hqueue, inHand_sending hphase, inHand_of_ne (by simp)]
      simp [Tasks.handles, Task.handles, asked]
    | other hidle hevent hsent hnone hinbox hquiet =>
      have hsame : commands = s.commands := by
        cases event with
        | sent => exact absurd rfl hsent
        | _ => exact (Option.some.inj hput).symm
      rw [Tasks.handles, hnone, hidle, inHand_of_ne hquiet.phase, hsame]
      exact List.append_nil _

theorem Ledger.firmware {t : Instant} {event : Firmware.Event} {firmware : Firmware.Tasks}
    {commands : Channel DoorCommand doorCmdCapacity} {os' : List Firmware.Observation}
    (h : Ledger s es os) (hput : s.put event = some commands)
    (hmoves : Firmware.Moves version s.firmware t event firmware os') :
    Ledger { s with clock := t, commands, firmware }
      (es ++ [{ time := t, event := .firmware event }])
      (os ++ ((s.handles event).map .handled ++ os'.map .firmware)) := by
  cases hmoves with
  | telemetry hreact => exact h.takes hput (takes_of_react hreact) rfl rfl
  | started hs =>
    cases hput
    exact h.still rfl rfl (handled_firmware [] _) (received_firmware [] _)
  | committed hs hupdate =>
    cases hput
    exact h.still rfl rfl (handled_firmware [] _) (received_firmware [] _)
  | sampled hs hupdate =>
    cases hput
    exact h.still rfl rfl (handled_firmware [] []) (received_firmware [] [])
  | rejoined hw hset =>
    cases hput
    exact h.still rfl rfl (handled_firmware [] _) (received_firmware [] _)
  | supervised he hw =>
    cases hput
    exact h.still rfl rfl (handled_firmware [] _) (received_firmware [] _)

theorem take_cases {event : Actuator.Event} {commands : Channel DoorCommand doorCmdCapacity}
    (h : s.take event = some commands) :
    s.commands.queue = event.commands ++ commands.queue := by
  cases event with
  | receive command =>
    cases hreceive : s.commands.receive with
    | none => simp [Tasks.take, hreceive] at h
    | some taken =>
      obtain ⟨next, rest⟩ := taken
      simp only [Tasks.take, hreceive] at h
      by_cases hnext : next = command
      · rw [if_pos hnext, Option.some.injEq] at h
        rw [Channel.receive_eq_some.mp hreceive, hnext, h]
        rfl
      · rw [if_neg hnext] at h
        cases h
  | _ =>
    cases h
    rfl

theorem Ledger.actuator {t : Instant} {event : Actuator.Event} {actuator : Actuator.Task}
    {commands : Channel DoorCommand doorCmdCapacity} {os' : List Actuator.Observation}
    (h : Ledger s es os) (htake : s.take event = some commands)
    (hstep : Actuator.step s.actuator { time := t, event } = some (actuator, os')) :
    Ledger { s with clock := t, commands, actuator }
      (es ++ [{ time := t, event := .actuator event }]) (os ++ os'.map .actuator) := by
  constructor
  · rw [handled_append, handled_actuator, List.append_nil, arrived_snoc]
    exact h.inOrder.trans (List.sublist_append_left _ _)
  · rw [handled_append, handled_actuator, List.append_nil, received_append, received_actuator,
      Actuator.received_step hstep, h.conserved, take_cases htake]
    simp only [List.append_assoc]

theorem Ledger.step (h : Ledger s es os) (hs : step version s e = some (s', o)) :
    Ledger s' (es ++ [e]) (os ++ o) := by
  have hmoves := moves_of_step hs
  obtain ⟨t, event⟩ := e
  cases hmoves with
  | firmware hput hstep => exact h.firmware hput (Firmware.moves_of_step hstep)
  | actuator htake hstep => exact h.actuator htake hstep
  | checkEnded hota => exact h.still rfl rfl rfl rfl
  | committed hota => exact h.still rfl rfl rfl rfl
  | requested hota hset => exact h.still rfl rfl rfl rfl

theorem ledger_of_run {bootCheckAllowed : Bool}
    (h : (device version bootCheckAllowed).run es = some (s, os)) : Ledger s es os :=
  Machine.run_history (I := Ledger) (ledger_start bootCheckAllowed) (fun hI hs => hI.step hs) h

theorem Ledger.handled_sublist (h : Ledger s es os) : (handled os).Sublist (arrived es) :=
  (List.sublist_append_left _ _).trans h.inOrder

end

/-! ## Nothing lost -/

/-- A new session finds no message unread. -/
def NoneUnread (s : Tasks) (e : Timed Event) : Prop :=
  ∀ resumed, e.event = .firmware (.telemetry (.sessionConnected resumed)) →
    s.firmware.telemetry.inbox = []

section

variable {version : UInt32} {bootCheckAllowed : Bool} {s s' : Tasks} {e : Timed Event}
  {es : List (Timed Event)} {os o : List Observation}

/-- Every message is handled or unread. -/
def AllKept (s : Tasks) (es : List (Timed Event)) (os : List Observation) : Prop :=
  arrived es = handled os ++ s.firmware.telemetry.inbox

theorem AllKept.still (h : AllKept s es os) (hinbox : s'.firmware.telemetry.inbox =
      s.firmware.telemetry.inbox) (hevent : arrived [e] = []) (hhandled : handled o = []) :
    AllKept s' (es ++ [e]) (os ++ o) := by
  rw [AllKept, arrived_snoc, hevent, List.append_nil, handled_append, hhandled, List.append_nil,
    hinbox]
  exact h

theorem AllKept.takes {t : Instant} {event : Telemetry.Event} {r : Ran}
    {os' : List Firmware.Observation} (h : AllKept s es os)
    (hunread : NoneUnread s { time := t, event := .firmware (.telemetry event) })
    (htakes : Takes s.firmware.telemetry s.firmware.signals event r)
    (htelemetry : s'.firmware.telemetry = r.1) :
    AllKept s' (es ++ [{ time := t, event := .firmware (.telemetry event) }])
      (os ++ ((s.handles (.telemetry event)).map .handled ++ os'.map .firmware)) := by
  rw [AllKept, arrived_snoc, handled_append, handled_firmware, htelemetry, h, List.append_assoc,
    List.append_assoc]
  congr 1
  cases htakes with
  | arrived => rfl
  | dropped hidle hinbox hquiet =>
    rw [hunread _ rfl, hinbox]
    rfl
  | triggered hidle hinbox htriggers hresets => simp [arrived, Tasks.handles, Task.handles, hinbox]
  | reset hidle hinbox htriggers hresets => simp [arrived, Tasks.handles, Task.handles, hinbox]
  | handled hidle hinbox htriggers hresets hquiet =>
    simp [arrived, Tasks.handles, Task.handles, hinbox]
  | sent hphase => exact List.append_nil _
  | @other event r hidle hevent hsent hnone hinbox hquiet =>
    have harrived : arrived [{ time := t, event := .firmware (.telemetry event) }] = [] := by
      cases event with
      | arrived message => exact absurd rfl (hevent message)
      | _ => rfl
    rw [harrived, hinbox, Tasks.handles, hnone]
    exact List.append_nil _

theorem AllKept.step (h : AllKept s es os) (hunread : NoneUnread s e)
    (hs : step version s e = some (s', o)) : AllKept s' (es ++ [e]) (os ++ o) := by
  have hmoves := moves_of_step hs
  obtain ⟨t, event⟩ := e
  cases hmoves with
  | firmware hput hstep =>
    cases Firmware.moves_of_step hstep with
    | telemetry hreact => exact h.takes hunread (takes_of_react hreact) rfl
    | started hs => exact h.still rfl rfl (handled_firmware [] _)
    | committed hs hupdate => exact h.still rfl rfl (handled_firmware [] _)
    | sampled hs hupdate => exact h.still rfl rfl (handled_firmware [] [])
    | rejoined hw hset => exact h.still rfl rfl (handled_firmware [] _)
    | supervised he hw => exact h.still rfl rfl (handled_firmware [] _)
  | actuator htake hstep => exact h.still rfl rfl (handled_actuator _)
  | checkEnded hota => exact h.still rfl rfl rfl
  | committed hota => exact h.still rfl rfl rfl
  | requested hota hset => exact h.still rfl rfl rfl

/-- In every interleaving of the tasks: messages are handled at most once and in order, the
commands of the fresh triggers among them are received by the actuator in order, queued or
in hand, and the relay is asserted at most once for each.  Messages go unhandled only where
a connection is lost before they are read. -/
theorem every_pulse_was_asked_for
    (h : (device version bootCheckAllowed).run es = some (s, os)) :
    (handled os).Sublist (arrived es) ∧
    asked (handled os) = received os ++ s.commands.queue ++ s.firmware.telemetry.inHand ∧
    pulses os ≤ (received os).length ∧
    ((device version bootCheckAllowed).Along NoneUnread (start bootCheckAllowed) es →
      arrived es = handled os ++ s.firmware.telemetry.inbox) := by
  have hledger := ledger_of_run h
  have hstart : AllKept (start bootCheckAllowed) [] [] := rfl
  refine ⟨hledger.handled_sublist, hledger.conserved, Actuator.pulses_le_of_run (actuator_run h),
    fun halong => ?_⟩
  exact Machine.run_history_along (I := AllKept) hstart (fun hI hP hs => hI.step hP hs) halong h

/-- A connection to the broker. -/
def connecting : List Event :=
  [.firmware (.telemetry .configUp), .firmware (.telemetry .resolved),
    .firmware (.telemetry .tcpConnected), .firmware (.telemetry (.sessionConnected false)),
    .firmware (.telemetry .subscribed)]

/-- A trigger that is handled and sent. -/
def pressed : List Event :=
  [.firmware (.telemetry (.arrived ⟨topicTrigger, [], false⟩)), .firmware (.telemetry .selected),
    .firmware (.telemetry .sent)]

def asserting : List Event := [.actuator (.receive .trigger), .actuator .assert]

/-- Six triggers, the last five while the first pulse is on. -/
def burst : List (Timed Event) :=
  (connecting ++ pressed ++ asserting ++ pressed ++ pressed ++ pressed ++ pressed ++
    pressed.take 2).map fun event => { time := 1000000, event }

theorem every_pulse_was_asked_for_burst : ∃ s os, (device 1 true).run burst = some (s, os) ∧
    (handled os).length = 6 ∧ pulses os = 1 ∧
    asked (handled os) = received os ++ s.commands.queue ++ s.firmware.telemetry.inHand := by
  have hrun : ∃ s os, (device 1 true).run burst = some (s, os) ∧ (handled os).length = 6 ∧
      pulses os = 1 := ⟨_, _, rfl, rfl, rfl⟩
  obtain ⟨s, os, hrun, hhandled, hpulses⟩ := hrun
  exact ⟨s, os, hrun, hhandled, hpulses, (every_pulse_was_asked_for hrun).2.1⟩

end

end Device
end GarageDoor
