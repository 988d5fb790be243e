/-
When the no-IP reboot is a real outage.

The watchdog is told of a lease when the lease is acquired and never again while
it is held.  A reboot check after the loss of the link therefore measures from the
start of the lease.  The reset follows a real outage exactly when no check falls
between the reboot delay counted from the start of the last lease and the same
delay counted from its end.
-/
import GarageDoor.App.Wifi.Supervisor
import GarageDoor.Library.Trace

namespace GarageDoor
namespace Wifi

open Library

/-! ## The promise and its condition -/

def HeldAt (os : List Observation) (x : Nat) : Prop :=
  ∃ since lost, .lease since lost ∈ os ∧ since ≤ x ∧ x ≤ lost

/-- No lease was held in the reboot delay before any reset. -/
def OutageBeforeReset (os : List Observation) : Prop :=
  ∀ t, .reset t ∈ os → ∀ x, x ≤ t → t < x + noIpRebootMs * 1000 → ¬ HeldAt os x

/-- What the events say about leases: when the one held was noted, and when the
last one that ended was noted and lost. -/
structure Leases where
  held : Option Nat
  last : Option (Nat × Nat)

def Leases.next (l : Leases) (e : Timed Event) : Leases :=
  match e.event with
  | .noted => { l with held := some e.time.millis }
  | .linkDown | .rejoinRequested =>
    match l.held with
    | some noted => { held := none, last := some (noted, e.time.val) }
    | none => l
  | _ => l

def leases (es : List (Timed Event)) : Leases :=
  es.foldl Leases.next { held := none, last := none }

/-- A reboot check outside the window that opens the reboot delay after the last
lease was noted and closes the reboot delay after it was lost. -/
def OutsideWindow (pre : List (Timed Event)) (e : Timed Event) : Prop :=
  e.event = .checked → ∀ noted lost, (leases pre).last = some (noted, lost) →
    noted + noIpRebootMs ≤ e.time.millis → lost + noIpRebootMs * 1000 ≤ e.time.val

def NoCheckInWindow : List (Timed Event) → Prop := EachAfter OutsideWindow

@[simp] theorem leases_snoc (es : List (Timed Event)) (e : Timed Event) :
    leases (es ++ [e]) = (leases es).next e := by
  simp [leases]

/-! ## One step -/

/-- A phase in which no lease is supervised and the task still runs. -/
def Idle (p : Phase) : Prop := p ≠ .reset ∧ ∀ since, p ≠ .supervising since

/-- What a step does to the lease and to the watchdog. -/
theorem step_cases {s s' : Supervisor} {e : Timed Event} {o : List Observation}
    (h : step s e = some (s', o)) :
    s.clock ≤ e.time ∧ s'.clock = e.time ∧
    ((Idle s.phase ∧ Idle s'.phase ∧ s'.watchdog = s.watchdog ∧ o = [] ∧
        e.event ≠ .noted ∧ e.event ≠ .checked ∧
        ∀ since, s'.phase = .configured since → since ≤ e.time.val) ∨
      (∃ since, s.phase = .configured since ∧ s'.phase = .supervising since ∧
        s'.watchdog.lastIpMs = some e.time.millis ∧ o = [] ∧ e.event = .noted) ∨
      (∃ since, s.phase = .supervising since ∧ s'.phase = .checking ∧
        s'.watchdog = s.watchdog ∧ o = [.lease since e.time.val] ∧
        (e.event = .linkDown ∨ e.event = .rejoinRequested)) ∨
      (s.phase = .checking ∧ Idle s'.phase ∧ s'.watchdog = s.watchdog ∧ o = [] ∧
        e.event = .checked ∧ s.watchdog.rebootDue e.time.millis = false ∧
        ∀ since, s'.phase ≠ .configured since) ∨
      (s.phase = .checking ∧ s'.phase = .reset ∧ o = [.reset e.time.val] ∧
        e.event = .checked ∧ s.watchdog.rebootDue e.time.millis = true)) := by
  unfold step at h
  split at h
  · next hclock =>
    generalize hp : s.phase = p at h
    generalize he : e.event = ev at h
    unfold react at h
    split at h <;> (try split at h) <;> (try split at h) <;>
      simp only [Option.some.injEq, Prod.mk.injEq, reduceCtorEq] at h <;>
      obtain ⟨rfl, rfl⟩ := h <;>
      refine ⟨hclock, rfl, ?_⟩
    -- One goal for each arm of `react`, in its order: each is one of the five
    -- cases read off directly.
    all_goals first
      | (refine .inr (.inr (.inr (.inr ?_))); simp_all; done)
      | (refine .inr (.inr (.inr (.inl ?_))); simp_all [Idle]; done)
      | (refine .inr (.inr (.inl ?_)); simp_all; done)
      | (refine .inr (.inl ?_); simp_all [NoIpWatchdog.noteIp]; done)
      | (refine .inl ?_; simp_all [Idle])
  · cases h

theorem Leases.next_of_not_held {l : Leases} {e : Timed Event} (hl : l.held = none)
    (he : e.event ≠ .noted) : l.next e = l := by
  unfold Leases.next
  split
  · next h => exact absurd h he
  · rw [hl]
  · rw [hl]
  · rfl

theorem Leases.next_noted {l : Leases} {e : Timed Event} (he : e.event = .noted) :
    l.next e = { l with held := some e.time.millis } := by
  simp [Leases.next, he]

theorem Leases.next_lost {l : Leases} {e : Timed Event} {noted : Nat}
    (hl : l.held = some noted) (he : e.event = .linkDown ∨ e.event = .rejoinRequested) :
    l.next e = { held := none, last := some (noted, e.time.val) } := by
  rcases he with he | he <;> simp [Leases.next, he, hl]

/-! ## The invariant -/

/-- What the watchdog remembers, phase by phase. -/
def Remembers (s : Supervisor) (l : Leases) : Prop :=
  (∀ since, s.phase = .supervising since →
    since ≤ s.clock.val ∧ ∃ noted, l.held = some noted ∧ s.watchdog.lastIpMs = some noted) ∧
  (Idle s.phase → l.held = none ∧ s.watchdog.lastIpMs = l.last.map Prod.fst) ∧
  (∀ since, s.phase = .configured since → since ≤ s.clock.val)

/-- The last lease the events name is the last one in the trace. -/
structure Recorded (clock : Instant) (l : Leases) (os : List Observation) : Prop where
  ended : ∀ since lost, .lease since lost ∈ os →
    ∃ noted last, l.last = some (noted, last) ∧ lost ≤ last
  last : ∀ noted lost, l.last = some (noted, lost) →
    lost ≤ clock.val ∧ ∃ since, since ≤ lost ∧ .lease since lost ∈ os

structure Inv (s : Supervisor) (es : List (Timed Event)) (os : List Observation) : Prop where
  remembers : Remembers s (leases es)
  recorded : Recorded s.clock (leases es) os
  running : s.phase ≠ .reset → NoCheckInWindow es ∧ ∀ t, .reset t ∉ os
  done : s.phase = .reset → (OutageBeforeReset os ↔ NoCheckInWindow es)

theorem inv_start : Inv start [] [] := by
  refine ⟨⟨by simp [start], by simp [start, leases, NoIpWatchdog.new], by simp [start]⟩,
    ⟨by simp, by simp [leases]⟩, fun _ => ⟨eachAfter_nil _, by simp⟩, by simp [start]⟩

theorem NoCheckInWindow.snoc {es : List (Timed Event)} {e : Timed Event}
    (h : NoCheckInWindow es) (he : e.event ≠ .checked) : NoCheckInWindow (es ++ [e]) :=
  eachAfter_snoc.mpr ⟨h, fun hc => absurd hc he⟩

theorem Recorded.mono {c c' : Instant} {l : Leases} {os : List Observation}
    (h : Recorded c l os) (hc : c ≤ c') : Recorded c' l os :=
  ⟨h.ended, fun noted lost hl =>
    ⟨Nat.le_trans (h.last noted lost hl).1 hc, (h.last noted lost hl).2⟩⟩

theorem Recorded.lost {c c' : Instant} {l : Leases} {os : List Observation} {since noted : Nat}
    (h : Recorded c l os) (hc : c ≤ c') (hsince : since ≤ c'.val) :
    Recorded c' { held := none, last := some (noted, c'.val) }
      (os ++ [.lease since c'.val]) := by
  refine ⟨fun since' lost' hmem => ⟨noted, c'.val, rfl, ?_⟩, ?_⟩
  · rcases List.mem_append.mp hmem with hmem | hmem
    · obtain ⟨noted', last, hl, hle⟩ := h.ended since' lost' hmem
      exact Nat.le_trans hle (Nat.le_trans (h.last noted' last hl).1 hc)
    · simp only [List.mem_singleton, Observation.lease.injEq] at hmem
      exact Nat.le_of_eq hmem.2
  · intro noted' lost' hl
    simp only [Option.some.injEq, Prod.mk.injEq] at hl
    obtain ⟨rfl, rfl⟩ := hl
    exact ⟨Nat.le_refl _, since, hsince, by simp⟩

/-- The reset a due check calls is a real outage exactly when the check is outside
the window. -/
theorem outage_reset_iff {s : Supervisor} {es : List (Timed Event)} {os : List Observation}
    {e : Timed Event} (h : Inv s es os) (hs : s.phase = .checking) (hclock : s.clock ≤ e.time)
    (he : e.event = .checked) (hdue : s.watchdog.rebootDue e.time.millis = true) :
    OutageBeforeReset (os ++ [.reset e.time.val]) ↔ NoCheckInWindow (es ++ [e]) := by
  obtain ⟨hclear, hreset⟩ := h.running (by simp [hs])
  have hmem : (leases es).held = none ∧
      s.watchdog.lastIpMs = (leases es).last.map Prod.fst :=
    h.remembers.2.1 (by simp [hs, Idle])
  have hheld : ∀ x, HeldAt (os ++ [.reset e.time.val]) x ↔ HeldAt os x := by
    intro x
    simp [HeldAt]
  rw [NoCheckInWindow, eachAfter_snoc]
  constructor
  · refine fun hout => ⟨hclear, fun _ noted lost hl _ => ?_⟩
    obtain ⟨hlost, since, hle, hin⟩ := h.recorded.last noted lost hl
    by_contra hlt
    exact hout e.time.val (by simp) lost (Nat.le_trans hlost hclock) (by omega)
      ((hheld lost).mpr ⟨since, lost, hin, hle, Nat.le_refl _⟩)
  · intro ⟨_, hwin⟩ t ht x hx hlt hxheld
    have ht' : t = e.time.val := by
      rcases List.mem_append.mp ht with ht | ht
      · exact absurd ht (hreset t)
      · simpa using ht
    subst ht'
    obtain ⟨since, lost, hin, _, hxl⟩ := (hheld x).mp hxheld
    obtain ⟨noted, last, hl, hle⟩ := h.recorded.ended since lost hin
    have hnoted : noted + noIpRebootMs ≤ e.time.millis := by
      have := NoIpWatchdog.rebootDue_iff.mp hdue
      rw [hmem.2, hl] at this
      simpa using this
    have := hwin he noted last hl hnoted
    omega

section

variable {s s' : Supervisor} {es : List (Timed Event)} {os : List Observation} {e : Timed Event}

/-- No lease is touched. -/
theorem Inv.idle (h : Inv s es os) (hp : Idle s.phase) (hp' : Idle s'.phase)
    (hw : s'.watchdog = s.watchdog) (hclock : s.clock ≤ e.time) (hclock' : s'.clock = e.time)
    (he : e.event ≠ .noted)
    (hconf : ∀ since, s'.phase = .configured since → since ≤ e.time.val)
    (hout : OutsideWindow es e) : Inv s' (es ++ [e]) os := by
  obtain ⟨hheld, hlast⟩ := h.remembers.2.1 hp
  have hnext := Leases.next_of_not_held hheld he
  obtain ⟨hclear, hreset⟩ := h.running hp.1
  refine ⟨⟨fun since hsup => absurd hsup (hp'.2 since), fun _ => ?_, ?_⟩, ?_, ?_, ?_⟩
  · rw [leases_snoc, hnext, hw]
    exact ⟨hheld, hlast⟩
  · rw [hclock']
    exact hconf
  · rw [leases_snoc, hnext, hclock']
    exact h.recorded.mono hclock
  · exact fun _ => ⟨eachAfter_snoc.mpr ⟨hclear, hout⟩, hreset⟩
  · exact fun hr => absurd hr hp'.1

/-- The lease is noted and supervision of the link begins. -/
theorem Inv.noted {since : Nat} (h : Inv s es os) (hp : s.phase = .configured since)
    (hp' : s'.phase = .supervising since) (hw : s'.watchdog.lastIpMs = some e.time.millis)
    (hclock : s.clock ≤ e.time) (hclock' : s'.clock = e.time) (he : e.event = .noted) :
    Inv s' (es ++ [e]) os := by
  have hnext := Leases.next_noted (l := leases es) he
  obtain ⟨hclear, hreset⟩ := h.running (by simp [hp])
  have hsince := h.remembers.2.2 since hp
  refine ⟨⟨?_, by simp [hp', Idle], by simp [hp']⟩, ?_, ?_, by simp [hp']⟩
  · intro since' hsup
    rw [hp', Phase.supervising.injEq] at hsup
    subst hsup
    rw [hclock', leases_snoc, hnext]
    exact ⟨Nat.le_trans hsince hclock, _, rfl, hw⟩
  · rw [leases_snoc, hnext, hclock']
    exact ⟨h.recorded.ended, (h.recorded.mono hclock).last⟩
  · exact fun _ => ⟨hclear.snoc (by simp [he]), hreset⟩

/-- The link is lost, or telemetry asked for a rejoin. -/
theorem Inv.lost {since : Nat} (h : Inv s es os) (hp : s.phase = .supervising since)
    (hp' : s'.phase = .checking) (hw : s'.watchdog = s.watchdog) (hclock : s.clock ≤ e.time)
    (hclock' : s'.clock = e.time) (he : e.event = .linkDown ∨ e.event = .rejoinRequested) :
    Inv s' (es ++ [e]) (os ++ [.lease since e.time.val]) := by
  obtain ⟨hsince, noted, hheld, hlast⟩ := h.remembers.1 since hp
  have hnext := Leases.next_lost hheld he
  obtain ⟨hclear, hreset⟩ := h.running (by simp [hp])
  refine ⟨⟨by simp [hp'], fun _ => ?_, by simp [hp']⟩, ?_, ?_, by simp [hp']⟩
  · rw [leases_snoc, hnext, hw]
    exact ⟨rfl, hlast⟩
  · rw [leases_snoc, hnext, hclock']
    exact h.recorded.lost hclock (Nat.le_trans hsince hclock)
  · refine fun _ => ⟨hclear.snoc ?_, by simpa using hreset⟩
    rcases he with he | he <;> simp [he]

/-- A check that is not due is outside the window. -/
theorem Inv.outsideWindow (h : Inv s es os) (hp : s.phase = .checking)
    (hdue : s.watchdog.rebootDue e.time.millis = false) : OutsideWindow es e := by
  intro _ noted lost hl hle
  obtain ⟨-, hlast⟩ := h.remembers.2.1 (by simp [hp, Idle])
  have hnot : ¬ s.watchdog.lastIpMs.getD 0 + noIpRebootMs ≤ e.time.millis := by
    rw [← NoIpWatchdog.rebootDue_iff, hdue]
    simp
  rw [hlast, hl] at hnot
  exact absurd hle (by simpa using hnot)

/-- The check is due and resets. -/
theorem Inv.due (h : Inv s es os) (hp : s.phase = .checking) (hp' : s'.phase = .reset)
    (hclock : s.clock ≤ e.time) (hclock' : s'.clock = e.time) (he : e.event = .checked)
    (hdue : s.watchdog.rebootDue e.time.millis = true) :
    Inv s' (es ++ [e]) (os ++ [.reset e.time.val]) := by
  refine ⟨⟨by simp [hp'], by simp [hp', Idle], by simp [hp']⟩, ?_, by simp [hp'],
    fun _ => outage_reset_iff h hp hclock he hdue⟩
  obtain ⟨hheld, -⟩ := h.remembers.2.1 (by simp [hp, Idle])
  rw [leases_snoc, Leases.next_of_not_held hheld (by simp [he]), hclock']
  have hrecorded := h.recorded.mono hclock
  exact ⟨fun since lost hin => hrecorded.ended since lost (by simpa using hin),
    fun noted lost hl => by simpa using hrecorded.last noted lost hl⟩

theorem inv_step {o : List Observation} (h : Inv s es os) (hs : step s e = some (s', o)) :
    Inv s' (es ++ [e]) (os ++ o) := by
  obtain ⟨hclock, hclock', hcase⟩ := step_cases hs
  rcases hcase with ⟨hp, hp', hw, rfl, hnoted, hchecked, hconf⟩ |
    ⟨since, hp, hp', hw, rfl, he⟩ | ⟨since, hp, hp', hw, rfl, he⟩ |
    ⟨hp, hp', hw, rfl, he, hdue, hconf⟩ | ⟨hp, hp', rfl, he, hdue⟩
  · rw [List.append_nil]
    exact h.idle hp hp' hw hclock hclock' hnoted hconf fun hc => absurd hc hchecked
  · rw [List.append_nil]
    exact h.noted hp hp' hw hclock hclock' he
  · exact h.lost hp hp' hw hclock hclock' he
  · rw [List.append_nil]
    exact h.idle (by simp [hp, Idle]) hp' hw hclock hclock' (by simp [he])
      (fun since hc => absurd hc (hconf since)) (h.outsideWindow hp hdue)
  · exact h.due hp hp' hclock hclock' he hdue

end

/-! ## Every run -/

/-- In every run, a reset follows a real outage exactly when no reboot check falls
in the window. -/
theorem outage_iff_no_check_in_window {es : List (Timed Event)} {s : Supervisor}
    {os : List Observation} (hrun : wifiSupervisorTask.run es = some (s, os)) :
    OutageBeforeReset os ↔ NoCheckInWindow es := by
  have hinv : Inv s es os :=
    Machine.run_history (m := wifiSupervisorTask) inv_start (fun hI hs => inv_step hI hs) hrun
  by_cases hp : s.phase = .reset
  · exact hinv.done hp
  · obtain ⟨hclear, hreset⟩ := hinv.running hp
    exact ⟨fun _ => hclear, fun _ t ht => absurd ht (hreset t)⟩

/-- A lease of 601 seconds, then the link is lost and the MCU resets at once. -/
theorem reset_after_long_lease :
    ¬ ∀ (es : List (Timed Event)) (s : Supervisor) (os : List Observation),
      wifiSupervisorTask.run es = some (s, os) → OutageBeforeReset os := by
  intro h
  have hout : OutageBeforeReset [.lease 2000000 603000000, .reset 603000000] :=
    h [⟨1000000, .joined⟩, ⟨2000000, .configUp⟩, ⟨2000000, .noted⟩,
        ⟨603000000, .linkDown⟩, ⟨603000000, .checked⟩]
      { phase := .reset, backoffMs := 1000, watchdog := { lastIpMs := some 2000 },
        clock := 603000000 } _ (by rfl)
  exact hout 603000000 (by simp) 603000000 (Nat.le_refl _) (by decide)
    ⟨2000000, 603000000, by simp, by decide, Nat.le_refl _⟩

/-- A join that times out `t` seconds after the start and is given up. -/
def retry (t : Nat) : List (Timed Event) :=
  [⟨Fin.ofNat _ (t * 1000000), .waited⟩, ⟨Fin.ofNat _ ((t + 15) * 1000000), .joinTimedOut⟩,
    ⟨Fin.ofNat _ ((t + 15) * 1000000), .checked⟩, ⟨Fin.ofNat _ ((t + 16) * 1000000), .left⟩]

/-- The link is lost after a lease of ten seconds, and for ten minutes every join fails. -/
def unjoinable : List (Timed Event) :=
  [⟨1000000, .joined⟩, ⟨2000000, .configUp⟩, ⟨2000000, .noted⟩, ⟨12000000, .linkDown⟩,
    ⟨12000000, .checked⟩, ⟨13000000, .left⟩] ++
  (List.range 12).flatMap (fun k => retry (50 + 46 * k)) ++ (retry 602).take 3

theorem outage_iff_no_check_in_window_unjoinable : ∃ s os,
    wifiSupervisorTask.run unjoinable = some (s, os) ∧ .reset 617000000 ∈ os ∧
      OutageBeforeReset os ∧ NoCheckInWindow unjoinable := by
  have hrun : ∃ s, wifiSupervisorTask.run unjoinable =
      some (s, [.lease 2000000 12000000, .reset 617000000]) := ⟨_, rfl⟩
  obtain ⟨s, hrun⟩ := hrun
  have hout : OutageBeforeReset [.lease 2000000 12000000, .reset 617000000] := by
    intro t ht x _ hlt ⟨since, lost, hlease, _, hlost⟩
    simp only [List.mem_cons, Observation.reset.injEq, List.not_mem_nil, or_false, reduceCtorEq,
      false_or] at ht
    simp only [List.mem_cons, Observation.lease.injEq, List.not_mem_nil, or_false,
      reduceCtorEq] at hlease
    unfold noIpRebootMs at hlt
    omega
  exact ⟨s, _, hrun, by simp, hout, (outage_iff_no_check_in_window hrun).mp hout⟩

end Wifi
end GarageDoor
