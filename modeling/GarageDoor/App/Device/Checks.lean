/-
From a reset message to an update check.

Requests that come while a check runs are kept, as one.
-/
import GarageDoor.App.Device.Commands

namespace GarageDoor
namespace Device

open Library Mqtt Door Telemetry

/-- The observation of a reset request. -/
def resetRequested : Observation := .firmware (.telemetry .resetRequested)

def Observation.isRequest : Observation → Bool
  | .firmware (.telemetry .resetRequested) => true
  | _ => false

def Observation.isCheck : Observation → Bool
  | .checkStarted => true
  | _ => false

def requests (os : List Observation) : Nat := os.countP Observation.isRequest

/-- The checks that were started on request. -/
def checks (os : List Observation) : Nat := os.countP Observation.isCheck

/-- A request came since the last check was started. -/
def Unserved (os : List Observation) : Prop :=
  ∃ pre post, os = pre ++ resetRequested :: post ∧ checks post = 0

def Tasks.requestSet (s : Tasks) : Prop := s.firmware.signals.resetRequest.value = some ()

/-- A step in view of the requests: one is made, one is taken, or neither. -/
inductive Asks (s s' : Tasks) (o : List Observation) : Prop where
  | made {message} (ho : o = [.handled message, resetRequested]) (hresets : message.resets = true)
      (hset : s'.requestSet)
  | taken (ho : o = [.checkStarted]) (hset : s.requestSet) (hclear : ¬ s'.requestSet)
  | neither (hrequests : requests o = 0) (hchecks : checks o = 0)
      (hhandled : (handled o).filter Message.resets = []) (hsame : s'.requestSet ↔ s.requestSet)

section

variable {version : UInt32} {bootCheckAllowed : Bool} {s s' : Tasks} {e : Timed Event}
  {es : List (Timed Event)} {os o : List Observation}

theorem requests_append (os o : List Observation) : requests (os ++ o) = requests os + requests o :=
  List.countP_append

theorem checks_append (os o : List Observation) : checks (os ++ o) = checks os + checks o :=
  List.countP_append

theorem checks_firmware (messages : List Message) (os : List Firmware.Observation) :
    checks (messages.map .handled ++ os.map .firmware) = 0 := by
  refine List.countP_eq_zero.mpr fun o ho => ?_
  rcases List.mem_append.mp ho with ho | ho <;> obtain ⟨x, -, rfl⟩ := List.mem_map.mp ho <;> nofun

theorem requests_telemetry (messages : List Message) (os : List Telemetry.Observation) :
    requests (messages.map .handled ++ (os.map Firmware.Observation.telemetry).map .firmware) =
      resetRequests os := by
  have hmessages : requests (messages.map .handled) = 0 := by
    refine List.countP_eq_zero.mpr fun o ho => ?_
    obtain ⟨x, -, rfl⟩ := List.mem_map.mp ho
    nofun
  rw [requests_append, hmessages, Nat.zero_add, List.map_map, requests, List.countP_map]
  refine List.countP_congr fun o _ => ?_
  cases o <;> simp [Observation.isRequest]

theorem asks_quiet {event : Telemetry.Event} {r : Ran}
    (hquiet : Quiet s.firmware.signals r) (hsignals : s'.firmware.signals = r.2.1)
    (hhandled : (s.handles (.telemetry event)).filter Message.resets = []) :
    Asks s s' ((s.handles (.telemetry event)).map .handled ++
      (r.2.2.map Firmware.Observation.telemetry).map .firmware) := by
  refine .neither ?_ (checks_firmware _ _) ?_ ?_
  · rw [requests_telemetry]
    exact hquiet.resets
  · rw [handled_firmware]
    exact hhandled
  · rw [Tasks.requestSet, Tasks.requestSet, hsignals, hquiet.resetRequest]

theorem asks_of_takes {event : Telemetry.Event} {r : Ran}
    (h : Takes s.firmware.telemetry s.firmware.signals event r)
    (hsignals : s'.firmware.signals = r.2.1) :
    Asks s s' ((s.handles (.telemetry event)).map .handled ++
      (r.2.2.map Firmware.Observation.telemetry).map .firmware) := by
  have hsame : r.2.1 = s.firmware.signals → (s'.requestSet ↔ s.requestSet) := fun heq => by
    rw [Tasks.requestSet, Tasks.requestSet, hsignals, heq]
  cases h with
  | arrived => exact .neither rfl rfl rfl (hsame rfl)
  | dropped hidle hinbox hquiet => exact asks_quiet hquiet hsignals rfl
  | @triggered message inbox hidle hinbox htriggers hresets =>
    refine .neither ?_ (checks_firmware _ _) ?_ (hsame rfl)
    · rw [requests_telemetry]
      rfl
    · rw [handled_firmware]
      simp [Tasks.handles, Task.handles, hinbox, hresets]
  | @reset message inbox hidle hinbox htriggers hresets =>
    refine .made ?_ hresets ?_
    · simp [Tasks.handles, Task.handles, hinbox, resetRequested]
    · rw [Tasks.requestSet, hsignals]
      rfl
  | @handled message r hidle hinbox htriggers hresets hquiet =>
    refine asks_quiet hquiet hsignals ?_
    simp [Tasks.handles, Task.handles, hinbox, hresets]
  | sent hphase => exact .neither rfl rfl rfl (hsame rfl)
  | other hidle hevent hsent hnone hinbox hquiet =>
    refine asks_quiet hquiet hsignals ?_
    rw [Tasks.handles, hnone]
    rfl

/-- The sensor and the supervisor make no request. -/
theorem asks_still {os : List Firmware.Observation}
    (hos : ∀ o ∈ os, o ≠ .telemetry .resetRequested)
    (hsame : s'.firmware.signals.resetRequest = s.firmware.signals.resetRequest) :
    Asks s s' (([] : List Message).map .handled ++ os.map .firmware) := by
  refine .neither ?_ (checks_firmware [] os) ?_ ?_
  · refine List.countP_eq_zero.mpr fun o ho => ?_
    obtain ⟨x, hx, rfl⟩ := List.mem_map.mp ho
    have hne := hos x hx
    cases x with
    | telemetry o => cases o <;> simp_all [Observation.isRequest]
    | _ => nofun
  · rw [handled_firmware]
    rfl
  · rw [Tasks.requestSet, Tasks.requestSet, hsame]

theorem asks_of_firmware {t : Instant} {event : Firmware.Event} {firmware : Firmware.Tasks}
    {os : List Firmware.Observation} (hfirmware : s'.firmware = firmware)
    (h : Firmware.Moves version s.firmware t event firmware os) :
    Asks s s' ((s.handles event).map .handled ++ os.map .firmware) := by
  cases h with
  | telemetry hreact => exact asks_of_takes (takes_of_react hreact) (by rw [hfirmware])
  | started hs => exact asks_still (by simp) (by rw [hfirmware]; rfl)
  | committed hs hupdate => exact asks_still (by simp) (by rw [hfirmware]; rfl)
  | sampled hs hupdate => exact asks_still (by simp) (by rw [hfirmware])
  | rejoined hw hset => exact asks_still (by simp) (by rw [hfirmware])
  | supervised he hw =>
    refine asks_still ?_ (by rw [hfirmware])
    intro o ho
    rcases List.mem_append.mp ho with ho | ho
    · split at ho
      · rw [List.mem_singleton.mp ho]
        nofun
      · cases ho
    · obtain ⟨x, -, rfl⟩ := List.mem_map.mp ho
      nofun

theorem asks_of_step (hs : step version s e = some (s', o)) : Asks s s' o := by
  have hmoves := moves_of_step hs
  obtain ⟨t, event⟩ := e
  cases hmoves with
  | firmware hput hstep => exact asks_of_firmware rfl (Firmware.moves_of_step hstep)
  | @actuator event commands actuator os htake hstep =>
    have hnone : ∀ p : Observation → Bool, (∀ x, p (.actuator x) = false) →
        (os.map Observation.actuator).countP p = 0 := by
      intro p hp
      refine List.countP_eq_zero.mpr fun o ho => ?_
      obtain ⟨x, -, rfl⟩ := List.mem_map.mp ho
      simp [hp]
    refine .neither (hnone _ fun _ => rfl) (hnone _ fun _ => rfl) ?_ Iff.rfl
    rw [handled_actuator]
    rfl
  | checkEnded hota => exact .neither rfl rfl rfl Iff.rfl
  | committed hota => exact .neither rfl rfl rfl Iff.rfl
  | requested hota hset => exact .taken rfl hset nofun

theorem unserved_snoc (h : checks o = 0) : Unserved os → Unserved (os ++ o) := by
  rintro ⟨pre, post, rfl, hpost⟩
  refine ⟨pre, post ++ o, by simp, ?_⟩
  rw [checks_append, hpost, h]

/-- Without a request and a check nothing is asked for that was not before. -/
theorem unserved_of_snoc (hrequests : requests o = 0) (h : Unserved (os ++ o)) : Unserved os := by
  obtain ⟨pre, post, heq, hpost⟩ := h
  rcases List.append_eq_append_iff.mp heq with ⟨mid, rfl, ho⟩ | ⟨mid, rfl, hmid⟩
  · have hmem : resetRequested ∈ o := by
      rw [ho]
      exact List.mem_append_right _ List.mem_cons_self
    exact absurd rfl (List.countP_eq_zero.mp hrequests _ hmem)
  · cases mid with
    | nil =>
      have hmem : resetRequested ∈ o := by
        rw [← List.nil_append o, ← hmid]
        exact List.mem_cons_self
      exact absurd rfl (List.countP_eq_zero.mp hrequests _ hmem)
    | cons x mid =>
      rw [List.cons_append, List.cons.injEq] at hmid
      obtain ⟨rfl, rfl⟩ := hmid
      rw [checks_append] at hpost
      exact ⟨pre, mid, rfl, Nat.eq_zero_of_add_eq_zero_right hpost⟩

theorem not_unserved_check (os : List Observation) : ¬ Unserved (os ++ [.checkStarted]) := by
  rintro ⟨pre, post, heq, hpost⟩
  rcases List.eq_nil_or_concat post with rfl | ⟨post, o, rfl⟩
  · have hlast := (List.append_inj' heq rfl).2
    cases hlast
  · have hlast : [Observation.checkStarted] = [o] :=
      (List.append_inj' (by simpa using heq : os ++ [.checkStarted] =
        (pre ++ resetRequested :: post) ++ [o]) rfl).2
    rw [List.concat_eq_append, checks_append, ← hlast] at hpost
    cases Nat.eq_zero_of_add_eq_zero_left hpost

/-- The signal says whether there is a request without a check, and each check was one. -/
structure Served (s : Tasks) (os : List Observation) : Prop where
  pending : s.requestSet ↔ Unserved os
  counted : requests os = ((handled os).filter Message.resets).length
  bounded : checks os ≤ requests os
  spare : s.requestSet → checks os < requests os

theorem Served.asks (h : Served s os) (hasks : Asks s s' o) : Served s' (os ++ o) := by
  cases hasks with
  | @made message ho hresets hset =>
    subst ho
    refine ⟨⟨fun _ => ⟨os ++ [.handled message], [], by simp, rfl⟩, fun _ => hset⟩, ?_, ?_, ?_⟩
    · rw [requests_append, handled_append, List.filter_append, List.length_append, h.counted]
      simp [requests, handled, Observation.isRequest, resetRequested, Observation.handled?, hresets]
    · rw [requests_append, checks_append]
      exact Nat.add_le_add h.bounded (Nat.zero_le _)
    · intro _
      rw [requests_append, checks_append]
      exact Nat.add_lt_add_of_le_of_lt h.bounded Nat.one_pos
  | taken ho hset hclear =>
    subst ho
    refine ⟨⟨fun hset' => absurd hset' hclear, fun hunserved =>
      absurd hunserved (not_unserved_check os)⟩, ?_, ?_, fun hset' => absurd hset' hclear⟩
    · rw [requests_append, handled_append, List.filter_append, List.length_append, h.counted]
      rfl
    · rw [requests_append, checks_append]
      exact h.spare hset
  | neither hrequests hchecks hhandled hsame =>
    refine ⟨⟨fun hset => unserved_snoc hchecks (h.pending.mp (hsame.mp hset)), fun hunserved =>
      hsame.mpr (h.pending.mpr (unserved_of_snoc hrequests hunserved))⟩, ?_, ?_, ?_⟩
    · rw [requests_append, hrequests, handled_append, List.filter_append, hhandled, h.counted,
        List.append_nil]
      rfl
    · rw [requests_append, checks_append, hchecks]
      exact Nat.le_add_right_of_le h.bounded
    · intro hset
      rw [requests_append, checks_append, hchecks]
      exact Nat.lt_add_right _ (h.spare (hsame.mp hset))

theorem served_of_run (h : (device version bootCheckAllowed).run es = some (s, os)) :
    Served s os := by
  have hstart : Served (start bootCheckAllowed) [] := by
    refine ⟨⟨nofun, ?_⟩, rfl, Nat.le_refl 0, nofun⟩
    rintro ⟨pre, post, heq, -⟩
    simp at heq
  exact Machine.run_history (I := fun s _ os => Served s os) hstart
    (fun hI hs => hI.asks (asks_of_step hs)) h

/-- In every interleaving of the tasks: a check other than the one at boot is started for a
fresh reset message of its own, and where such a message was handled after the last check
was started, the OTA task starts another as soon as it waits. -/
theorem every_check_was_asked_for
    (h : (device version bootCheckAllowed).run es = some (s, os)) :
    checks os ≤ ((arrived es).filter Message.resets).length ∧
    (s.ota = .waiting → ∀ t, s.clock ≤ t → s.running →
      ((∃ s' o, step version s { time := t, event := .requested } = some (s', o)) ↔
        Unserved os)) := by
  have hserved := served_of_run h
  constructor
  · have hsublist := (ledger_of_run h).handled_sublist
    calc checks os ≤ requests os := hserved.bounded
      _ = ((handled os).filter Message.resets).length := hserved.counted
      _ ≤ ((arrived es).filter Message.resets).length := (hsublist.filter _).length_le
  · intro hota t hclock hrunning
    rw [← hserved.pending]
    constructor
    · rintro ⟨s', o, hstep⟩
      cases moves_of_step hstep with
      | requested hota hset => exact hset
    · intro hset
      have hready : s.clock ≤ t ∧ s.running := ⟨hclock, hrunning⟩
      have hwait : s.firmware.signals.resetRequest.wait = some ((), .new) :=
        Signal.wait_eq_some.mpr ⟨hset, rfl⟩
      simp only [step, if_pos hready, react, Tasks.takeRequest, hota, hwait, if_true]
      exact ⟨_, _, rfl⟩

/-- A reset message, and the end of a check. -/
def resetPressed : List Event :=
  [.firmware (.telemetry (.arrived ⟨topicReset, [], false⟩)), .firmware (.telemetry .selected),
    .checkEnded]

/-- The message comes while the boot check runs. -/
def resetDuringCheck : List (Timed Event) :=
  (connecting ++ resetPressed).map fun event => { time := 0, event }

theorem every_check_was_asked_for_during_check : ∃ s os,
    (device 1 true).run resetDuringCheck = some (s, os) ∧ Unserved os ∧
      ∃ s' o, step 1 s { time := 7, event := .requested } = some (s', o) := by
  have hrun : ∃ s os, (device 1 true).run resetDuringCheck = some (s, os) ∧ s.ota = .waiting ∧
      s.clock = 0 ∧ s.running ∧ os.getLast? = some resetRequested :=
    ⟨_, _, rfl, rfl, rfl, by decide, rfl⟩
  obtain ⟨s, os, hrun, hota, hclock, hrunning, hlast⟩ := hrun
  obtain ⟨pre, rfl⟩ := List.getLast?_eq_some_iff.mp hlast
  have hunserved : Unserved (pre ++ [resetRequested]) := ⟨pre, [], rfl, rfl⟩
  have hle : s.clock ≤ 7 := by
    rw [hclock]
    decide
  exact ⟨s, _, hrun, hunserved,
    ((every_check_was_asked_for hrun).2 hota 7 hle hrunning).mpr hunserved⟩

end

end Device
end GarageDoor
