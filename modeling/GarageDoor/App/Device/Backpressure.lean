/-
A full command channel.

While the channel is full the telemetry task keeps the trigger it has in hand and handles no
message.  The actuator needs no other task to make room.
-/
import GarageDoor.App.Device.Commands

namespace GarageDoor
namespace Actuator

open Library Door

section

variable {s s' : Task} {t : Instant} {e : Timed Event} {os : List Observation}

/-- A pulse lasts no longer than it should. -/
def Due (s : Task) : Prop :=
  ∀ expiresAt, s.phase = .pulsing expiresAt → expiresAt ≤ s.clock.val + relayPulseMs * 1000

theorem due_step (h : step s e = some (s', os)) : Due s' ∧ s'.clock = e.time := by
  obtain ⟨hclock, hcase⟩ := step_cases h
  rcases hcase with ⟨hp, -, rfl, rfl⟩ | ⟨hp, -, rfl, rfl⟩ | ⟨action, hp, -, rfl, rfl⟩ |
    ⟨expiresAt, hp, -, hle, rfl, rfl⟩ | ⟨hp, -, rfl, rfl⟩
  · unfold onTrigger
    rcases s.interlock.poll e.time.millis with ⟨ended, interlock⟩
    simp only
    rcases interlock.trigger e.time.millis with ⟨reason | action, interlock⟩
    · exact ⟨nofun, rfl⟩
    · exact ⟨nofun, rfl⟩
  · refine ⟨fun expiresAt hpulsing => ?_, rfl⟩
    rw [hp] at hpulsing
    cases hpulsing
  · refine ⟨fun expiresAt hpulsing => ?_, rfl⟩
    cases hpulsing
    exact Nat.le_refl _
  · exact ⟨nofun, rfl⟩
  · exact ⟨nofun, rfl⟩

theorem step_assert {action : RelayAction} (hp : s.phase = .asserting action)
    (h : s.clock ≤ t) : ∃ s', step s { time := t, event := .assert } =
      some (s', [.pin (apply action)]) ∧
        s'.phase = .pulsing (t.val + relayPulseMs * 1000) ∧ s'.clock = t :=
  ⟨_, by simp only [step, hp, if_pos h]; rfl, rfl, rfl⟩

theorem step_wake {expiresAt : Nat} (hp : s.phase = .pulsing expiresAt) (h : s.clock ≤ t)
    (hexpired : expiresAt ≤ t.val) : ∃ s', step s { time := t, event := .wake } =
      some (s', [.pin .low]) ∧ s'.phase = .reconciling ∧ s'.clock = t :=
  ⟨_, by simp only [step, hp, if_pos h, if_pos hexpired]; rfl, rfl, rfl⟩

theorem step_reconcile (hp : s.phase = .reconciling) (h : s.clock ≤ t) :
    ∃ s', step s { time := t, event := .reconcile } = some (s', []) ∧
      s'.phase = .receiving ∧ s'.clock = t :=
  ⟨_, by simp only [step, hp, if_pos h]; rfl, rfl, rfl⟩

theorem step_receive (hp : s.phase = .receiving) (h : s.clock ≤ t) (command : DoorCommand) :
    ∃ s' os, step s { time := t, event := .receive command } = some (s', os) ∧ s'.clock = t := by
  have hstep : ∃ s' os, step s { time := t, event := .receive command } = some (s', os) := by
    cases command with
    | trigger => exact ⟨_, _, by simp only [step, hp, if_pos h]; rfl⟩
    | queryStatus => exact ⟨_, _, by simp only [step, hp, if_pos h]; rfl⟩
  obtain ⟨s', os, hstep⟩ := hstep
  exact ⟨s', os, hstep, (due_step hstep).2⟩

end

end Actuator

namespace Device

open Library Door Telemetry

/-- No task's clock is ahead, and no pulse is longer than it should be. -/
structure Paced (s : Tasks) : Prop where
  firmware : s.firmware.clock ≤ s.clock
  actuator : s.actuator.clock ≤ s.clock
  due : Actuator.Due s.actuator

/-- An event of the actuator, or the end of a send. -/
def Event.clears : Event → Prop
  | .actuator _ => True
  | .firmware (.telemetry .sent) => True
  | _ => False

/-- With at most `n` steps of the actuator and one send, no later than `later`, the
telemetry task is back at its select. -/
def Sends (m : Machine Tasks (Timed Event) Observation) (later : Instant) (n : Nat)
    (s : Tasks) : Prop :=
  ∃ fs s' os, m.runFrom s fs = some (s', os) ∧ fs.length ≤ n + 1 ∧
    (∀ f ∈ fs, f.time ≤ later ∧ f.event.clears) ∧ s'.firmware.telemetry.phase = .selecting

/-- The telemetry task has a trigger in hand, and nothing in the channel but triggers. -/
structure Waiting (s : Tasks) : Prop where
  paced : Paced s
  running : s.running
  phase : s.firmware.telemetry.phase = .sendingCommand
  triggers : ∀ command ∈ s.commands.queue, command = .trigger

section

variable {version : UInt32} {bootCheckAllowed : Bool} {s s' : Tasks} {e : Timed Event}
  {es : List (Timed Event)} {os o : List Observation} {t later : Instant} {n : Nat}

theorem firmware_clock {firmware firmware' : Firmware.Tasks} {t : Instant}
    {event : Firmware.Event} {os : List Firmware.Observation}
    (h : Firmware.Moves version firmware t event firmware' os) : firmware'.clock = t := by
  cases h <;> rfl

theorem Paced.step (h : Paced s) (hs : step version s e = some (s', o)) : Paced s' := by
  obtain ⟨hclock, -⟩ := step_clock hs
  have hfirmware := Fin.le_trans h.firmware hclock
  have hactuator := Fin.le_trans h.actuator hclock
  have hmoves := moves_of_step hs
  obtain ⟨t, event⟩ := e
  cases hmoves with
  | firmware hput hstep =>
    have hat := firmware_clock (Firmware.moves_of_step hstep)
    exact ⟨Fin.le_of_eq hat, hactuator, h.due⟩
  | actuator htake hstep =>
    obtain ⟨hdue, hat⟩ := Actuator.due_step hstep
    exact ⟨hfirmware, Fin.le_of_eq hat, hdue⟩
  | checkEnded hota => exact ⟨hfirmware, hactuator, h.due⟩
  | committed hota => exact ⟨hfirmware, hactuator, h.due⟩
  | requested hota hset => exact ⟨hfirmware, hactuator, h.due⟩

theorem paced_of_run (h : (device version bootCheckAllowed).run es = some (s, os)) : Paced s := by
  have hstart : Paced (start bootCheckAllowed) := ⟨Fin.le_refl _, Fin.le_refl _, nofun⟩
  exact Machine.run_history (I := fun s _ _ => Paced s) hstart (fun hI hs => hI.step hs) h

/-- A step of the actuator is a step of the device, if the channel goes along with it. -/
theorem step_actuator {event : Actuator.Event} {actuator : Actuator.Task}
    {aos : List Actuator.Observation} {commands : Channel DoorCommand doorCmdCapacity}
    (hrunning : s.running) (hclock : s.clock ≤ t) (htake : s.take event = some commands)
    (h : Actuator.step s.actuator { time := t, event } = some (actuator, aos)) :
    step version s { time := t, event := .actuator event } =
      some ({ s with clock := t, commands, actuator }, aos.map .actuator) := by
  have hready : s.clock ≤ t ∧ s.running := ⟨hclock, hrunning⟩
  have htake : ({ s with clock := t } : Tasks).take event = some commands := by
    cases event <;> exact htake
  simp only [step, if_pos hready, react, htake, h]

theorem firmware_sent {f : Firmware.Tasks} (hclock : f.clock ≤ t)
    (hrunning : f.supervisor.phase ≠ .reset) (hphase : f.telemetry.phase = .sendingCommand) :
    Firmware.step version f { time := t, event := .telemetry .sent } =
      some ({ f with clock := t, telemetry := { f.telemetry with phase := .selecting } },
        [.telemetry (.commandSent .trigger)]) := by
  have hready : f.clock ≤ t ∧ f.supervisor.phase ≠ .reset := ⟨hclock, hrunning⟩
  simp only [Firmware.step, if_pos hready, Firmware.react, hphase, Telemetry.react, List.map_cons,
    List.map_nil]

/-- With room in the channel the send is the next step. -/
theorem sends_of_room (h : Waiting s) (hclock : s.clock ≤ later)
    {commands : Channel DoorCommand doorCmdCapacity}
    (hroom : s.commands.send .trigger = some commands) :
    Sends (device version bootCheckAllowed) later n s := by
  have hready : s.clock ≤ s.clock ∧ s.running := ⟨Fin.le_refl _, h.running⟩
  have hfirmware := @firmware_sent version _ _ h.paced.firmware h.running.1 h.phase
  let event : Timed Event := { time := s.clock, event := .firmware (.telemetry .sent) }
  have hsent : ∃ s' o, step version s event = some (s', o) ∧
      s'.firmware.telemetry.phase = .selecting := by
    simp only [event, step, if_pos hready, react, Tasks.put, hroom, hfirmware]
    exact ⟨_, _, rfl, rfl⟩
  obtain ⟨s', o, hstep, hphase⟩ := hsent
  refine ⟨[event], s', o ++ [], Machine.runFrom_cons.mpr ⟨s', o, [], hstep, rfl, rfl⟩,
    Nat.le_add_left 1 n, ?_, hphase⟩
  intro f hf
  rw [List.mem_singleton.mp hf]
  exact ⟨hclock, trivial⟩

theorem Sends.actuator {event : Actuator.Event} {actuator : Actuator.Task}
    {aos : List Actuator.Observation} {commands : Channel DoorCommand doorCmdCapacity}
    (hrunning : s.running) (hclock : s.clock ≤ t) (hlater : t ≤ later)
    (htake : s.take event = some commands)
    (h : Actuator.step s.actuator { time := t, event } = some (actuator, aos))
    (hrest : Sends (device version bootCheckAllowed) later n
      { s with clock := t, commands, actuator }) :
    Sends (device version bootCheckAllowed) later (n + 1) s := by
  obtain ⟨fs, s', os, hrun, hlength, hfs, hphase⟩ := hrest
  refine ⟨⟨t, .actuator event⟩ :: fs, s', aos.map .actuator ++ os, Machine.runFrom_cons.mpr
    ⟨_, _, os, step_actuator hrunning hclock htake h, hrun, rfl⟩, Nat.succ_le_succ hlength, ?_,
    hphase⟩
  exact List.forall_mem_cons.mpr ⟨⟨hlater, trivial⟩, hfs⟩

/-- A step of the actuator other than a receive leaves the telemetry task waiting. -/
theorem Waiting.actuator {actuator : Actuator.Task} (h : Waiting s) (hat : actuator.clock = t)
    (hdue : Actuator.Due actuator) (hclock : s.clock ≤ t) :
    Waiting { s with clock := t, actuator } :=
  ⟨⟨Fin.le_trans h.paced.firmware hclock, Fin.le_of_eq hat, hdue⟩, h.running, h.phase,
    h.triggers⟩

theorem sends_receiving (h : Waiting s) (hlater : s.clock ≤ later)
    (hp : s.actuator.phase = .receiving) :
    Sends (device version bootCheckAllowed) later 1 s := by
  cases hroom : s.commands.send .trigger with
  | some commands => exact sends_of_room h hlater hroom
  | none =>
    rcases Channel.send_or_receive (by decide) s.commands .trigger with ⟨commands, hsend⟩ |
      ⟨command, commands, hreceive⟩
    · rw [hroom] at hsend
      cases hsend
    · have htake : s.take (.receive command) = some commands := by
        simp only [Tasks.take, hreceive, if_true]
      obtain ⟨actuator, aos, hstep, hat⟩ :=
        Actuator.step_receive hp h.paced.actuator command
      obtain ⟨hdue, -⟩ := Actuator.due_step hstep
      obtain ⟨room, hsend⟩ := Channel.send_after_receive hreceive DoorCommand.trigger
      refine .actuator h.running (Fin.le_refl _) hlater htake hstep (sends_of_room ?_ hlater hsend)
      refine ⟨⟨h.paced.firmware, Fin.le_of_eq hat, hdue⟩, h.running, h.phase, ?_⟩
      intro next hnext
      refine h.triggers next ?_
      rw [Channel.receive_eq_some.mp hreceive]
      exact List.mem_cons_of_mem _ hnext

theorem sends_reconciling (h : Waiting s) (hlater : s.clock ≤ later)
    (hp : s.actuator.phase = .reconciling) :
    Sends (device version bootCheckAllowed) later 2 s := by
  obtain ⟨actuator, hstep, hphase, hat⟩ := Actuator.step_reconcile hp h.paced.actuator
  refine .actuator h.running (Fin.le_refl _) hlater rfl hstep (sends_receiving ?_ hlater hphase)
  exact h.actuator hat (Actuator.due_step hstep).1 (Fin.le_refl _)

theorem sends_pulsing {expiresAt : Nat} (h : Waiting s) (hlater : s.clock ≤ later)
    (hp : s.actuator.phase = .pulsing expiresAt) (hexpired : expiresAt ≤ later.val) :
    Sends (device version bootCheckAllowed) later 3 s := by
  obtain ⟨actuator, hstep, hphase, hat⟩ :=
    Actuator.step_wake hp (Fin.le_trans h.paced.actuator hlater) hexpired
  refine .actuator h.running hlater (Fin.le_refl _) rfl hstep
    (sends_reconciling ?_ (Fin.le_refl _) hphase)
  exact h.actuator hat (Actuator.due_step hstep).1 hlater

theorem sends_asserting {action : RelayAction} (h : Waiting s)
    (hlater : later.val = s.clock.val + relayPulseMs * 1000)
    (hp : s.actuator.phase = .asserting action) :
    Sends (device version bootCheckAllowed) later 4 s := by
  have hle : s.clock ≤ later := by
    show s.clock.val ≤ later.val
    omega
  obtain ⟨actuator, hstep, hphase, hat⟩ := Actuator.step_assert hp h.paced.actuator
  refine .actuator h.running (Fin.le_refl _) hle rfl hstep
    (sends_pulsing ?_ hle hphase (Nat.le_of_eq hlater.symm))
  exact h.actuator hat (Actuator.due_step hstep).1 (Fin.le_refl _)

theorem Sends.mono {m : Nat} (h : Sends (device version bootCheckAllowed) later n s) (hnm : n ≤ m) :
    Sends (device version bootCheckAllowed) later m s := by
  obtain ⟨fs, s', os, hrun, hlength, hfs, hphase⟩ := h
  exact ⟨fs, s', os, hrun, by omega, hfs, hphase⟩

theorem triggers_of_ledger (h : Ledger s es os) : ∀ command ∈ s.commands.queue,
    command = .trigger := by
  intro command hcommand
  have hmem : command ∈ asked (handled os) := by
    rw [h.conserved]
    exact List.mem_append_left _ (List.mem_append_right _ hcommand)
  obtain ⟨message, -, hmessage⟩ := List.mem_map.mp hmem
  exact hmessage.symm

/-- In whatever state the tasks got into: a telemetry task with a trigger in hand takes no
part in anything but the arrival of messages, and four steps of the actuator within one pulse
time are enough for the trigger to be sent. -/
theorem trigger_in_hand_is_sent
    (h : (device version bootCheckAllowed).run es = some (s, os)) (hrunning : s.running)
    (hphase : s.firmware.telemetry.phase = .sendingCommand)
    (hlater : later.val = s.clock.val + relayPulseMs * 1000) :
    Sends (device version bootCheckAllowed) later 4 s ∧
    ∀ t event s' o, step version s { time := t, event := .firmware (.telemetry event) } =
      some (s', o) → event = .sent ∨ ∃ message, event = .arrived message := by
  have hle : s.clock ≤ later := by
    show s.clock.val ≤ later.val
    omega
  have hpaced := paced_of_run h
  have hwaiting : Waiting s :=
    ⟨hpaced, hrunning, hphase, triggers_of_ledger (ledger_of_run h)⟩
  constructor
  · cases hp : s.actuator.phase with
    | receiving => exact (sends_receiving hwaiting hle hp).mono (by decide)
    | reconciling => exact (sends_reconciling hwaiting hle hp).mono (by decide)
    | pulsing expiresAt =>
      have hexpired : expiresAt ≤ later.val := by
        rw [hlater]
        exact Nat.le_trans (hpaced.due expiresAt hp) (Nat.add_le_add_right hpaced.actuator _)
      exact (sends_pulsing hwaiting hle hp hexpired).mono (by decide)
    | asserting action => exact sends_asserting hwaiting hlater hp
  · intro t event s' o hstep
    cases moves_of_step hstep with
    | firmware hput hfirmware =>
      cases Firmware.moves_of_step hfirmware with
      | telemetry hreact =>
        have hhand := inHand_sending hphase
        cases takes_of_react hreact with
        | arrived => exact .inr ⟨_, rfl⟩
        | sent hphase => exact .inl rfl
        | dropped hidle => simp [hidle] at hhand
        | triggered hidle => simp [hidle] at hhand
        | reset hidle => simp [hidle] at hhand
        | handled hidle => simp [hidle] at hhand
        | other hidle => simp [hidle] at hhand

/-- The sixth trigger of a burst waits for the first pulse to end. -/
theorem trigger_in_hand_is_sent_burst : ∃ s os, (device 1 true).run burst = some (s, os) ∧
    s.commands.isFull ∧ Sends (device 1 true) 1600000 4 s := by
  have hrun : ∃ s os, (device 1 true).run burst = some (s, os) ∧ s.commands.queue.length = 4 ∧
      s.running ∧ s.firmware.telemetry.phase = .sendingCommand ∧ s.clock = 1000000 :=
    ⟨_, _, rfl, rfl, by decide, rfl, rfl⟩
  obtain ⟨s, os, hrun, hfull, hrunning, hphase, hclock⟩ := hrun
  exact ⟨s, os, hrun, hfull, (trigger_in_hand_is_sent hrun hrunning hphase (by
    rw [hclock]
    decide)).1⟩

end

end Device
end GarageDoor
