/-
When a rejoin request concerns the association it ends.

The signal remembers a request until the supervisor waits on it, so one raised while there
is no association waits for the next.
-/
import GarageDoor.App.Firmware
import GarageDoor.Library.Trace

namespace GarageDoor
namespace Wifi

open Library

/-- A phase inside `handle_associated`. -/
def Phase.associated : Phase → Bool
  | .awaitingDhcp _ _ | .configured _ | .supervising _ => true
  | _ => false

section

variable {s s' : Supervisor} {e : Timed Event} {o : List Observation}

/-- An association begins by joining. -/
theorem associated_of_step (h : step s e = some (s', o)) (he : e.event ≠ .joined)
    (hs' : s'.phase.associated = true) : s.phase.associated = true := by
  unfold step at h
  split at h
  · generalize s.phase = phase at h ⊢
    generalize e.event = event at h he
    unfold react at h
    split at h <;> (try split at h) <;> (try split at h) <;>
      simp only [Option.some.injEq, Prod.mk.injEq, reduceCtorEq] at h <;>
      obtain ⟨rfl, rfl⟩ := h <;> simp_all [Phase.associated]
  · cases h

/-- A rejoin request ends an association. -/
theorem associated_of_rejoin (h : step s e = some (s', o)) (he : e.event = .rejoinRequested) :
    s.phase.associated = true := by
  unfold step at h
  split at h
  · rw [he] at h
    generalize s.phase = phase at h ⊢
    cases phase <;> simp_all [react, Phase.associated]
  · cases h

/-- From a joined network a rejoin request can be taken at once. -/
theorem rejoin_of_joined (h : step s e = some (s', o)) (he : e.event = .joined) :
    o = [] ∧ s'.phase ≠ .reset ∧ s'.clock = e.time ∧
      ∃ s'', step s' { time := e.time, event := .rejoinRequested } = some (s'', []) := by
  unfold step at h
  split at h
  · rw [he] at h
    generalize s.phase = phase at h
    cases phase with
    | joining expiresAt =>
      simp only [react, Option.some.injEq, Prod.mk.injEq] at h
      obtain ⟨rfl, rfl⟩ := h
      refine ⟨rfl, nofun, rfl, ?_⟩
      simp [step, react]
    | _ => simp [react] at h
  · cases h

end

end Wifi

namespace Telemetry

open Library

section

variable {version : UInt32} {t : Instant} {s : Task} {signals : Signals} {phase : Phase}
  {e : Event} {r : Ran}

theorem rejoin_failBackoff (t : Instant) (s : Task) (signals : Signals) :
    (failBackoff t s signals).2.1.wifiRejoin = signals.wifiRejoin ∨
      .rejoinRequested ∈ (failBackoff t s signals).2.2 := by
  unfold failBackoff
  rcases s.rejoin.failure with ⟨_ | _, rejoin⟩ <;> simp

theorem rejoin_publishState (s : Task) (signals : Signals) (state : Door.DoorState)
    (phase : Phase) :
    (publishState s signals state phase).2.1.wifiRejoin = signals.wifiRejoin := by
  rw [publishState_eq]

theorem rejoin_publishSnapshot (s : Task) (signals : Signals) :
    (publishSnapshot s signals).2.1.wifiRejoin = signals.wifiRejoin := by
  simp only [publishSnapshot]
  split
  · rw [rejoin_publishState]
  · rfl

/-- The rejoin signal is touched by raising a request alone. -/
theorem rejoin_of_react (h : react version t s signals phase e = some r) :
    r.2.1.wifiRejoin = signals.wifiRejoin ∨ .rejoinRequested ∈ r.2.2 := by
  cases steps_of_react h with
  | failed => exact rejoin_failBackoff t s signals
  | @connected resumed =>
    cases resumed with
    | false => exact .inl rfl
    | true => exact .inl (rejoin_publishSnapshot _ signals)
  | subscribed => exact .inl (rejoin_publishSnapshot s signals)
  | @selected action s₁ signals₁ hselect =>
    have hsignals : signals₁.wifiRejoin = signals.wifiRejoin := by
      rcases select_cases hselect with ⟨_, _, -, -, rfl, -⟩ | ⟨_, _, -, -, -, -, rfl⟩ <;> rfl
    rw [← hsignals]
    cases action with
    | status uuid uuidLen =>
      simp only [act]
      split <;> exact .inl rfl
    | stateChange state => exact .inl (rejoin_publishState _ _ _ _)
    | disconnected => exact rejoin_failBackoff t s₁ signals₁
    | _ => exact .inl rfl
  | _ => exact .inl rfl

end

end Telemetry

namespace Firmware

open Library Telemetry

/-- A rejoin request was raised after the last association began. -/
def RaisedSince (before : List Observation) : Prop :=
  ∃ pre post, before = pre ++ .telemetry .rejoinRequested :: post ∧ .associated ∉ post

/-- An association is abandoned for a request raised since it began. -/
def RejoinsCurrent : List Observation → Prop :=
  EachAfter fun before o => o = .abandoned → RaisedSince before

/-- No request waits in the signal when the network is joined. -/
def NoneWaiting (s : Tasks) (e : Timed Event) : Prop :=
  e.event = .wifi .joined → s.signals.wifiRejoin.value = none

section

variable {version : UInt32} {s s' : Tasks} {e : Timed Event} {os o : List Observation}

theorem RaisedSince.append (h : RaisedSince os) (ho : .associated ∉ o) :
    RaisedSince (os ++ o) := by
  obtain ⟨pre, post, rfl, hpost⟩ := h
  exact ⟨pre, post ++ o, by simp, by simp [hpost, ho]⟩

theorem raisedSince_of_mem (os : List Observation) (ho : .associated ∉ o)
    (h : .telemetry .rejoinRequested ∈ o) : RaisedSince (os ++ o) := by
  obtain ⟨pre, post, rfl⟩ := List.append_of_mem h
  refine ⟨os ++ pre, post, by simp, fun hpost => ho ?_⟩
  exact List.mem_append_right _ (List.mem_cons_of_mem _ hpost)

theorem not_raisedSince_associated (os : List Observation) :
    ¬ RaisedSince (os ++ [.associated]) := by
  intro ⟨pre, post, h, hpost⟩
  rcases List.eq_nil_or_concat post with rfl | ⟨post, last, rfl⟩
  · cases (List.append_inj' h rfl).2
  · have hsplit : os ++ [.associated] =
        (pre ++ .telemetry .rejoinRequested :: post) ++ [last] := by simpa using h
    obtain ⟨-, hlast⟩ := List.append_inj' hsplit rfl
    cases hlast
    exact hpost (by simp)

/-- What waits in the signal during an association was raised during it. -/
structure Current (s : Tasks) (os : List Observation) : Prop where
  waiting : s.supervisor.phase.associated = true → s.signals.wifiRejoin.value = some () →
    RaisedSince os
  rejoins : RejoinsCurrent os

theorem current_start : Current start [] := ⟨nofun, eachAfter_nil _⟩

theorem RejoinsCurrent.append (h : RejoinsCurrent os) (ho : .abandoned ∉ o) :
    RejoinsCurrent (os ++ o) :=
  EachAfter.append h fun _ hx _ hx' => absurd (hx' ▸ hx) ho

theorem Current.silent (h : Current s os) (hsupervisor : s'.supervisor = s.supervisor)
    (hsignal : s'.signals.wifiRejoin = s.signals.wifiRejoin) (hassociated : .associated ∉ o)
    (habandoned : .abandoned ∉ o) : Current s' (os ++ o) := by
  refine ⟨fun ha hw => ?_, h.rejoins.append habandoned⟩
  rw [hsupervisor] at ha
  rw [hsignal] at hw
  exact (h.waiting ha hw).append hassociated

theorem Current.step (h : Current s os) (hstep : step version s e = some (s', o)) :
    RejoinsCurrent (os ++ o) ∧ (NoneWaiting s e → Current s' (os ++ o)) := by
  have hmoves := moves_of_step hstep
  obtain ⟨t, event⟩ := e
  cases hmoves with
  | started hs =>
    refine ⟨h.rejoins.append (by simp), fun _ => h.silent rfl rfl (by simp) (by simp)⟩
  | committed hs hupdate =>
    refine ⟨h.rejoins.append (by simp), fun _ => h.silent rfl rfl (by simp) (by simp)⟩
  | sampled hs hupdate =>
    refine ⟨h.rejoins.append (by simp), fun _ => h.silent rfl rfl (by simp) (by simp)⟩
  | @telemetry _ telemetry signals os' hreact =>
    have hrejoins : RejoinsCurrent (os ++ os'.map .telemetry) := h.rejoins.append (by simp)
    refine ⟨hrejoins, fun _ => ⟨fun ha hw => ?_, hrejoins⟩⟩
    rcases rejoin_of_react hreact with hsame | hraised
    · have hw : signals.wifiRejoin.value = some () := hw
      rw [show signals.wifiRejoin = s.signals.wifiRejoin from hsame] at hw
      exact (h.waiting ha hw).append (by simp)
    · exact raisedSince_of_mem os (by simp) (by simpa using hraised)
  | @rejoined supervisor os' hw hset =>
    have hraised := h.waiting (Wifi.associated_of_rejoin hw rfl) hset
    have hsnoc : RejoinsCurrent (os ++ [.abandoned]) :=
      eachAfter_snoc.mpr ⟨h.rejoins, fun _ => hraised⟩
    have hrejoins : RejoinsCurrent (os ++ (.abandoned :: os'.map .wifi)) := by
      simpa using hsnoc.append (o := os'.map .wifi) (by simp)
    exact ⟨hrejoins, fun _ => ⟨nofun, hrejoins⟩⟩
  | @supervised e supervisor os' he hw =>
    have hrejoins : RejoinsCurrent
        (os ++ ((if e = .joined then [.associated] else []) ++ os'.map .wifi)) :=
      h.rejoins.append (by split <;> simp)
    refine ⟨hrejoins, fun hnone => ⟨fun ha hset => ?_, hrejoins⟩⟩
    by_cases hjoined : e = .joined
    · rw [show s.signals.wifiRejoin.value = none from hnone (by rw [hjoined])] at hset
      cases hset
    · rw [if_neg hjoined, List.nil_append]
      exact (h.waiting (Wifi.associated_of_step hw hjoined ha) hset).append (by simp)

theorem current_of_run {es : List (Timed Event)}
    (hnone : (firmware version).Along NoneWaiting start es)
    (h : (firmware version).run es = some (s, os)) : Current s os :=
  Machine.run_history_along (I := fun s _ os => Current s os) current_start
    (fun hI hnone hs => (hI.step hs).2 hnone) hnone h

/-- A request that waits when the network is joined can be taken next. -/
theorem abandons_of_waiting {es : List (Timed Event)}
    (h : (firmware version).run es = some (s, os)) (hstep : step version s e = some (s', o))
    (hwaiting : ¬ NoneWaiting s e) :
    ∃ t os', (firmware version).run (es ++ [e, { e with event := .wifi .rejoinRequested }]) =
      some (t, os') ∧ ¬ RejoinsCurrent os' := by
  unfold NoneWaiting at hwaiting
  push Not at hwaiting
  obtain ⟨hjoined, hvalue⟩ := hwaiting
  have hset : s.signals.wifiRejoin.value = some () := by
    cases hcell : s.signals.wifiRejoin.value with
    | none => exact absurd hcell hvalue
    | some request => rfl
  have hmoves := moves_of_step hstep
  obtain ⟨t, event⟩ := e
  subst hjoined
  cases hmoves with
  | @supervised _ supervisor os' he hw =>
    obtain ⟨rfl, hphase, hclock, supervisor', hw'⟩ := Wifi.rejoin_of_joined hw rfl
    have hnext : ∃ t', step version { s with clock := t, supervisor }
        { time := t, event := .wifi .rejoinRequested } = some (t', [.abandoned]) := by
      have hwait : s.signals.wifiRejoin.wait = some ((), .new) :=
        Signal.wait_eq_some.mpr ⟨hset, rfl⟩
      rw [step, if_pos ⟨Nat.le_refl _, hphase⟩]
      simp only [react, Tasks.supervise, hw', if_true, hwait]
      exact ⟨_, rfl⟩
    obtain ⟨t', hnext⟩ := hnext
    have hrun := Machine.run_snoc (Machine.run_snoc h hstep) hnext
    rw [List.append_assoc] at hrun
    refine ⟨t', _, hrun, fun hcurrent => ?_⟩
    exact not_raisedSince_associated os ((eachAfter_snoc.mp hcurrent).2 rfl)

/-- As long as no request waits when the network is joined, associations are abandoned for
requests of their own.  Where one does wait, it is the supervisor's to take next. -/
theorem rejoinsCurrent_of_noneWaiting {es : List (Timed Event)}
    (h : (firmware version).run es = some (s, os)) :
    ((firmware version).Along NoneWaiting start es → RejoinsCurrent os) ∧
    (¬ (firmware version).Along NoneWaiting start es →
      ∃ pre e post t os', es = pre ++ e :: post ∧
        (firmware version).run (pre ++ [e, { e with event := .wifi .rejoinRequested }]) =
          some (t, os') ∧ ¬ RejoinsCurrent os') := by
  refine ⟨fun hnone => (current_of_run hnone h).rejoins, fun hnone => ?_⟩
  obtain ⟨pre, e, post, u, os₁, u', o, os₂, rfl, hpre, hwaiting, hstep, -⟩ :=
    Machine.exists_step_of_not_along h hnone
  obtain ⟨t, os', hrun, hstale⟩ := abandons_of_waiting hpre hstep hwaiting
  exact ⟨pre, e, post, t, os', rfl, hrun, hstale⟩

/-- An association gets its lease. -/
def leased : List (Timed Event) :=
  [⟨0, .wifi .joined⟩, ⟨0, .wifi .configUp⟩, ⟨0, .wifi .noted⟩]

/-- A connect attempt that fails at `t`, after a backoff. -/
def failedAttempt (t : Instant) : List (Timed Event) :=
  [⟨t, .telemetry .waited⟩, ⟨t, .telemetry .configUp⟩, ⟨t, .telemetry .resolved⟩,
    ⟨t, .telemetry .tcpFailed⟩]

/-- Four connects fail on one association. -/
def unreachable : List (Timed Event) :=
  leased ++
  [⟨0, .telemetry .configUp⟩, ⟨0, .telemetry .resolved⟩, ⟨0, .telemetry .tcpFailed⟩] ++
  failedAttempt 1000000 ++ failedAttempt 3000000 ++ failedAttempt 7000000

/-- The fifth connect fails as well, and the supervisor takes the request. -/
def givenUp : List (Timed Event) :=
  unreachable ++ failedAttempt 15000000 ++ [⟨15000000, .wifi .rejoinRequested⟩]

theorem rejoinsCurrent_of_noneWaiting_givenUp : ∃ s os,
    (firmware 1).run givenUp = some (s, os) ∧ .abandoned ∈ os ∧ RejoinsCurrent os := by
  have hrun : ∃ s os, (firmware 1).run givenUp = some (s, os) ∧ .abandoned ∈ os :=
    ⟨_, _, rfl, by simp⟩
  obtain ⟨s, os, hrun, habandoned⟩ := hrun
  have halong : (firmware 1).Along NoneWaiting start givenUp := by
    refine ⟨fun _ => rfl, fun s' _ _ => Machine.along_of_forall (fun e he _ hjoined => ?_) s'⟩
    have hlater : ∀ e ∈ givenUp.tail, e.event ≠ .wifi .joined := by
      simp [givenUp, unreachable, leased, failedAttempt]
    exact absurd hjoined (hlater e he)
  exact ⟨s, os, hrun, habandoned, (rejoinsCurrent_of_noneWaiting hrun).1 halong⟩

/-! ## A stale request -/

/-- The link is lost while the fifth connect is in flight, which then times out. -/
def linkLost : List (Timed Event) :=
  [⟨15000000, .telemetry .waited⟩, ⟨15000000, .telemetry .configUp⟩,
    ⟨15000000, .telemetry .resolved⟩, ⟨20000000, .wifi .linkDown⟩, ⟨20000000, .wifi .checked⟩,
    ⟨21000000, .wifi .left⟩, ⟨22000000, .wifi .waited⟩, ⟨25000000, .telemetry .tcpFailed⟩]

theorem rejoin_stale : ∃ s os,
    (firmware 1).run (unreachable ++ linkLost ++
      [⟨26000000, .wifi .joined⟩, ⟨26000000, .wifi .rejoinRequested⟩]) = some (s, os) ∧
      ¬ RejoinsCurrent os := by
  have hlost : ∃ s os s' o, (firmware 1).run (unreachable ++ linkLost) = some (s, os) ∧
      step 1 s ⟨26000000, .wifi .joined⟩ = some (s', o) ∧ s.signals.wifiRejoin.value ≠ none :=
    ⟨_, _, _, _, rfl, rfl, nofun⟩
  obtain ⟨s, os, s', o, hrun, hstep, hvalue⟩ := hlost
  exact abandons_of_waiting hrun hstep fun hnone => hvalue (hnone rfl)

end

end Firmware
end GarageDoor
