/-
When status replies are fresh.

A reply carries the telemetry task's copy of the door state, which a message that wins the
select does not refresh.
-/
import GarageDoor.App.Firmware.Delivered
import GarageDoor.Library.Trace

namespace GarageDoor
namespace Telemetry

open Library Mqtt Door

/-- The select completes with a status request. -/
def HandlesStatus (s : Task) (phase : Phase) (e : Event) : Prop :=
  phase = .selecting ∧ e = .selected ∧ ∃ message inbox uuid uuidLen,
    s.inbox = message :: inbox ∧ message.retained = false ∧
      classify message.topic message.payload = .status uuid uuidLen

section

variable {version : UInt32} {t : Instant} {s : Task} {signals : Signals} {phase : Phase}
  {e : Event} {r : Ran} {payload : Ascii.Text}

/-- A status request that is handled is answered from the copy. -/
theorem answers_of_handles (hhandles : HandlesStatus s phase e)
    (h : react version t s signals phase e = some r) :
    ∃ uuid, r.2.2 =
      [.published topicStatusResponse (statusResponse uuid (s.current.any isOpen) version)] := by
  obtain ⟨rfl, rfl, message, inbox, uuid, uuidLen, hinbox, hretained, hclassify⟩ := hhandles
  obtain ⟨u, buf, hreply⟩ := statusReply_classified hclassify s.current version
  have hselect : select s signals = some (.status uuid uuidLen, { s with inbox }, signals) := by
    simp only [select, hinbox, hretained, hclassify, Bool.false_eq_true, if_false]
  have hr : act version t { s with inbox } signals (.status uuid uuidLen) = r := by
    simpa only [react, hselect, Option.some.injEq] using h
  refine ⟨u, ?_⟩
  rw [← hr, act]
  simp only [hreply]

theorem not_answer_failBackoff (t : Instant) (s : Task) (signals : Signals) :
    .published topicStatusResponse payload ∉ (failBackoff t s signals).2.2 := by
  unfold failBackoff
  rcases s.rejoin.failure with ⟨_ | _, rejoin⟩ <;> simp

theorem not_answer_publishState (s : Task) (signals : Signals) (state : DoorState)
    (phase : Phase) :
    .published topicStatusResponse payload ∉ (publishState s signals state phase).2.2 := by
  have htopic : topicStatusResponse ≠ topicOnchange := by decide
  simp [publishState_eq, htopic]

theorem not_answer_publishSnapshot (s : Task) (signals : Signals) :
    .published topicStatusResponse payload ∉ (publishSnapshot s signals).2.2 := by
  simp only [publishSnapshot]
  split
  · exact not_answer_publishState _ _ _ _
  · simp [Task.at]

/-- Only a status request is answered. -/
theorem handles_of_answer (h : react version t s signals phase e = some r)
    (hanswer : .published topicStatusResponse payload ∈ r.2.2) : HandlesStatus s phase e := by
  cases steps_of_react h with
  | failed => exact absurd hanswer (not_answer_failBackoff t s signals)
  | @connected resumed =>
    cases resumed with
    | false => simp [sessionConnected, Task.at] at hanswer
    | true => exact absurd hanswer (not_answer_publishSnapshot _ signals)
  | subscribed => exact absurd hanswer (not_answer_publishSnapshot s signals)
  | @selected action s₁ signals₁ hselect =>
    rcases select_cases hselect with ⟨message, inbox, hinbox, rfl, rfl, haction⟩ |
      ⟨state, doorState, hinbox, rfl, rfl, hwait, rfl⟩
    · cases action with
      | status uuid uuidLen =>
        refine ⟨rfl, rfl, message, inbox, uuid, uuidLen, hinbox, ?_⟩
        cases hretained : message.retained with
        | true => simp [hretained] at haction
        | false => exact ⟨rfl, by simpa [hretained] using haction.symm⟩
      | stateChange state => exact absurd hanswer (not_answer_publishState _ _ _ _)
      | disconnected => exact absurd hanswer (not_answer_failBackoff t _ _)
      | trigger => simp [act, Task.at] at hanswer
      | reset => simp [act] at hanswer
      | unknown => simp [act, Task.at] at hanswer
    · exact absurd hanswer (not_answer_publishState _ _ _ _)
  | _ => simp [Task.at] at hanswer

end

end Telemetry

namespace Firmware

open Library Mqtt Door Telemetry

/-- A status response carries the state that was committed last before it. -/
def FreshAfter (version : UInt32) (before : List Observation) (o : Observation) : Prop :=
  ∀ payload state, o = .telemetry (.published topicStatusResponse payload) →
    lastCommitted before = some state →
    ∃ uuid, payload = statusResponse uuid (isOpen state) version

def RepliesFresh (version : UInt32) : List Observation → Prop := EachAfter (FreshAfter version)

/-- When a status request is handled, the signal holds no state that the copy does not
agree with. -/
def CopyAgrees (s : Tasks) (e : Timed Event) : Prop :=
  ∀ event, e.event = .telemetry event → HandlesStatus s.telemetry s.telemetry.phase event →
    ∀ state, s.signals.doorState.value = some state →
      isOpen state = s.telemetry.current.any isOpen

section

variable {version : UInt32} {s s' : Tasks} {e : Timed Event} {os o : List Observation}

theorem telemetry_step (h : step version s e = some (s', o)) {event : Telemetry.Event}
    (he : e.event = .telemetry event) :
    ∃ r, Telemetry.react version e.time s.telemetry s.signals s.telemetry.phase event = some r ∧
      o = r.2.2.map .telemetry := by
  have hmoves := moves_of_step h
  rw [he] at hmoves
  cases hmoves with
  | telemetry hreact => exact ⟨_, hreact, rfl⟩

/-- Only the telemetry task answers. -/
theorem not_answer_of_moves (h : Moves version s e.time e.event s' o)
    (he : ∀ event, e.event ≠ .telemetry event) (payload : Ascii.Text) :
    .telemetry (.published topicStatusResponse payload) ∉ o := by
  generalize e.event = event at h he
  cases h with
  | started hs => simp
  | committed hs hupdate => simp
  | sampled hs hupdate => simp
  | telemetry hreact => exact absurd rfl (he _)
  | rejoined hw hset => simp
  | supervised hne hw =>
    split <;> simp

/-- The answer agrees with the latest state exactly if the copy does. -/
theorem latest_isOpen {state : DoorState}
    (hlatest : latestState s.telemetry s.signals = some state)
    (hagrees : ∀ state, s.signals.doorState.value = some state →
      isOpen state = s.telemetry.current.any isOpen) :
    isOpen state = s.telemetry.current.any isOpen := by
  have hor : s.signals.doorState.value.or s.telemetry.current = some state := hlatest
  cases hvalue : s.signals.doorState.value with
  | none =>
    rw [hvalue, Option.none_or] at hor
    rw [hor]
    rfl
  | some value =>
    rw [hvalue, Option.some_or] at hor
    exact hagrees state (hvalue.trans hor)

theorem repliesFresh_step (hdelivered : Delivered s os) (hfresh : RepliesFresh version os)
    (hagrees : CopyAgrees s e) (h : step version s e = some (s', o)) :
    RepliesFresh version (os ++ o) := by
  by_cases hhandles : ∃ event, e.event = .telemetry event ∧
      HandlesStatus s.telemetry s.telemetry.phase event
  · obtain ⟨event, he, hhandles⟩ := hhandles
    obtain ⟨r, hreact, rfl⟩ := telemetry_step h he
    obtain ⟨uuid, hr⟩ := answers_of_handles hhandles hreact
    rw [hr]
    refine eachAfter_snoc.mpr ⟨hfresh, fun payload state hpayload hstate => ⟨uuid, ?_⟩⟩
    cases hpayload
    have hlatest := hdelivered.telemetry.trans hstate
    rw [latest_isOpen hlatest (hagrees event he hhandles)]
  · refine hfresh.append fun x hx before payload state hpayload _ => ?_
    subst hpayload
    by_cases htask : ∃ event, e.event = .telemetry event
    · obtain ⟨event, he⟩ := htask
      obtain ⟨r, hreact, rfl⟩ := telemetry_step h he
      have hanswer : .published topicStatusResponse payload ∈ r.2.2 := by simpa using hx
      exact absurd ⟨event, he, handles_of_answer hreact hanswer⟩ hhandles
    · exact absurd hx (not_answer_of_moves (moves_of_step h)
        (fun event he => htask ⟨event, he⟩) payload)

/-- Where the copy does not agree, the answer is not fresh. -/
theorem not_fresh_of_disagrees (hdelivered : Delivered s os) (hagrees : ¬ CopyAgrees s e)
    (h : step version s e = some (s', o)) : ¬ RepliesFresh version (os ++ o) := by
  unfold CopyAgrees at hagrees
  push Not at hagrees
  obtain ⟨event, he, hhandles, state, hvalue, hne⟩ := hagrees
  obtain ⟨r, hreact, rfl⟩ := telemetry_step h he
  obtain ⟨uuid, hr⟩ := answers_of_handles hhandles hreact
  have hstate : lastCommitted os = some state := by
    rw [← hdelivered.telemetry, latestState, Signal.latest, hvalue]
    rfl
  intro hfresh
  rw [hr] at hfresh
  obtain ⟨uuid', hpayload⟩ := (eachAfter_snoc.mp hfresh).2 _ state rfl hstate
  exact hne (statusResponse_isOpen hpayload).symm

/-- Status replies are fresh exactly as long as no status request is handled while the
signal holds a state that the telemetry task's copy does not agree with. -/
theorem repliesFresh_iff {es : List (Timed Event)}
    (h : (firmware version).run es = some (s, os)) :
    RepliesFresh version os ↔ (firmware version).Along CopyAgrees start es := by
  refine Machine.run_iff_along (I := fun s _ os => Delivered s os) delivered_start
    (eachAfter_nil _) (fun hI hs => hI.step (moves_of_step hs))
    (fun hI hs hagrees hfresh => repliesFresh_step hI hfresh hagrees hs) ?_ h
  intro s es os e s' o os' hI hs hfresh
  by_contra hagrees
  rw [← List.append_assoc] at hfresh
  exact not_fresh_of_disagrees hI hagrees hs hfresh.of_append

/-! ## A fresh reply -/

def request : Message :=
  { topic := topicStatus, payload := Ascii.text "\x7b\"uuid\":\"a\"\x7d", retained := false }

theorem request_parsed : parseStatusRequest request.payload = .ok (Ascii.text "a") := by
  have hid := Json.member_of_item (stringBody_word (s := "uuid") (by decide))
    (Json.item_of_value (.string (stringBody_word (s := "a") (by decide))))
  have hobject := Json.item_of_value (.object (.lastMember hid))
  have htext : request.payload = 123 :: (Json.quoted (Ascii.text "uuid") ++ 58 ::
      Json.quoted (Ascii.text "a") ++ [125]) := by decide
  rw [htext, parseStatusRequest_object hobject]
  exact statusFor_ok.mpr ⟨rfl, by decide⟩

/-- A request that waits is handled by the select. -/
theorem request_handled (hphase : s.telemetry.phase = .selecting)
    (hinbox : s.telemetry.inbox = [request]) :
    HandlesStatus s.telemetry s.telemetry.phase .selected := by
  have hclassify : classify request.topic request.payload = .status _ _ :=
    classify_parsed request_parsed (by decide)
  exact ⟨hphase, rfl, request, [], _, _, hinbox, rfl, hclassify⟩

variable (version) in
theorem request_selected (hready : s.supervisor.phase ≠ .reset)
    (hphase : s.telemetry.phase = .selecting) (hinbox : s.telemetry.inbox = [request]) :
    ∃ s' o, step version s ⟨s.clock, .telemetry .selected⟩ = some (s', o) := by
  have hreact : ∃ r, Telemetry.react version s.clock s.telemetry s.signals s.telemetry.phase
      .selected = some r := by
    simp only [hphase, Telemetry.react, select, hinbox]
    exact ⟨_, rfl⟩
  obtain ⟨r, hreact⟩ := hreact
  rw [step, if_pos ⟨Nat.le_refl _, hready⟩]
  simp only [react, hreact]
  exact ⟨_, _, rfl⟩

/-- A connection is up, and the initial state of the door published. -/
def connected : List (Timed Event) :=
  [⟨0, .sensorStarted true⟩, ⟨0, .telemetry .configUp⟩, ⟨0, .telemetry .resolved⟩,
    ⟨0, .telemetry .tcpConnected⟩, ⟨0, .telemetry (.sessionConnected false)⟩,
    ⟨0, .telemetry .subscribed⟩, ⟨0, .telemetry .published⟩]

set_option maxRecDepth 8000 in
/-- A request arrives, and the door has not moved since. -/
theorem repliesFresh_iff_request : ∃ s os uuid,
    (firmware 1).run (connected ++ [⟨0, .telemetry (.arrived request)⟩] ++
      [⟨0, .telemetry .selected⟩]) = some (s, os) ∧
    .telemetry (.published topicStatusResponse (statusResponse uuid false 1)) ∈ os ∧
    RepliesFresh 1 os := by
  have hasked : ∃ s os, (firmware 1).run (connected ++ [⟨0, .telemetry (.arrived request)⟩]) =
      some (s, os) ∧ s.clock = 0 ∧ s.supervisor.phase ≠ .reset ∧
      s.telemetry.phase = .selecting ∧ s.telemetry.inbox = [request] ∧
      s.signals.doorState.value = none ∧ s.telemetry.current = some .closed :=
    ⟨_, _, rfl, rfl, nofun, rfl, rfl, rfl, rfl⟩
  obtain ⟨s, os, hrun, hclock, hready, hphase, hinbox, hvalue, hcurrent⟩ := hasked
  obtain ⟨s', o, hstep⟩ := request_selected 1 hready hphase hinbox
  rw [hclock] at hstep
  obtain ⟨r, hreact, rfl⟩ := telemetry_step hstep rfl
  obtain ⟨uuid, hanswer⟩ := answers_of_handles (request_handled hphase hinbox) hreact
  rw [hcurrent] at hanswer
  have hwhole := Machine.run_snoc hrun hstep
  refine ⟨s', _, uuid, hwhole, ?_, (repliesFresh_iff hwhole).mpr (Machine.along_append ?_ ?_)⟩
  · rw [hanswer]
    exact List.mem_append_right _ (List.mem_singleton_self _)
  · refine Machine.along_of_forall (fun e he _ event hevent hhandles => ?_) start
    have hquiet : ∀ e ∈ connected ++ [⟨0, .telemetry (.arrived request)⟩],
        e.event ≠ .telemetry .selected := by
      simp [connected]
    obtain ⟨-, rfl, -⟩ := hhandles
    exact absurd hevent (hquiet e he)
  · intro t os' ht
    cases hrun.symm.trans ht
    refine Machine.along_cons (fun _ _ _ state hstate => ?_) hstep trivial
    rw [hvalue] at hstate
    cases hstate

/-! ## A stale reply -/

/-- The door opens while the snapshot of a closed door is published, and a request arrives. -/
def busy : List (Timed Event) :=
  [⟨0, .sensorStarted true⟩, ⟨0, .telemetry .configUp⟩, ⟨0, .telemetry .resolved⟩,
    ⟨0, .telemetry .tcpConnected⟩, ⟨0, .telemetry (.sessionConnected false)⟩,
    ⟨0, .telemetry .subscribed⟩, ⟨0, .sampled false⟩, ⟨50000, .sampled false⟩,
    ⟨50000, .telemetry (.arrived request)⟩, ⟨50000, .telemetry .published⟩]

set_option maxRecDepth 8000 in
theorem reply_stale : ∃ s os,
    (firmware 1).run (busy ++ [⟨50000, .telemetry .selected⟩]) = some (s, os) ∧
      ¬ RepliesFresh 1 os := by
  have hbusy : ∃ s os, (firmware 1).run busy = some (s, os) ∧ s.clock = 50000 ∧
      s.supervisor.phase ≠ .reset ∧ s.telemetry.phase = .selecting ∧
      s.telemetry.inbox = [request] ∧ s.signals.doorState.value = some .opened ∧
      s.telemetry.current = some .closed :=
    ⟨_, _, rfl, rfl, nofun, rfl, rfl, rfl, rfl⟩
  obtain ⟨s, os, hrun, hclock, hready, hphase, hinbox, hvalue, hcurrent⟩ := hbusy
  obtain ⟨s', o, hstep⟩ := request_selected 1 hready hphase hinbox
  rw [hclock] at hstep
  refine ⟨s', os ++ o, Machine.run_snoc hrun hstep, ?_⟩
  refine not_fresh_of_disagrees (delivered_of_run hrun) (fun hagrees => ?_) hstep
  have hopen := hagrees .selected rfl (request_handled hphase hinbox) .opened hvalue
  rw [hcurrent] at hopen
  exact absurd hopen (by decide)

end

end Firmware
end GarageDoor
