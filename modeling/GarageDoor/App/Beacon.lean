/-
The status beacon.

The task blinks the LED in the pattern of the state signalled last.  It looks for a new state
in every wait of a pattern and at the start of each.
-/
import GarageDoor.App.Ota.Request
import GarageDoor.Library.Machine
import GarageDoor.Library.Signal
import Mathlib.Algebra.GroupWithZero.Nat

namespace GarageDoor
namespace Beacon

open Library

inductive BeaconState where
  | connecting
  | connected
  | error (code : UInt8)
  deriving DecidableEq, Repr

/-- The calls of `step_led`. -/
inductive Step where
  | connecting (on : Bool)
  | connected (on : Bool)
  /-- A pulse that `left` more come after. -/
  | pulse (code : UInt8) (left : Nat) (on : Bool)
  | pause (code : UInt8)
  deriving DecidableEq, Repr

def Step.on : Step → Bool
  | .connecting on | .connected on | .pulse _ _ on => on
  | .pause _ => false

def Step.millis : Step → Nat
  | .connecting _ => 100
  | .connected true => 50
  | .connected false => 2000
  | .pulse _ _ _ => 200
  | .pause _ => 1000

inductive Phase where
  /-- Awaiting the radio, to set the LED. -/
  | setting (step : Step)
  | waiting (step : Step)
  deriving DecidableEq, Repr

structure Task where
  phase : Phase
  current : BeaconState
  signal : Signal BeaconState
  deriving DecidableEq, Repr

inductive Event where
  /-- Another task signals a state. -/
  | signalled (state : BeaconState)
  | set
  | elapsed
  | woken
  deriving DecidableEq, Repr

inductive Observation where
  | led (on : Bool)
  /-- The LED stayed for the whole duration. -/
  | held (millis : Nat)
  deriving DecidableEq, Repr

/-- `code.max(1)`. -/
def blinks (code : UInt8) : Nat := max code.toNat 1

def firstStep : BeaconState → Step
  | .connecting => .connecting true
  | .connected => .connected true
  | .error code => .pulse code (blinks code - 1) true

/-- The top of the loop. -/
def enter (current : BeaconState) (signal : Signal BeaconState) : Task :=
  let (taken, signal) := signal.tryTake
  let current := taken.getD current
  { phase := .setting (firstStep current), current, signal }

/-- What follows a step once its wait is over. -/
def next (step : Step) (current : BeaconState) (signal : Signal BeaconState) : Task :=
  match step with
  | .connecting true => { phase := .setting (.connecting false), current, signal }
  | .connected true => { phase := .setting (.connected false), current, signal }
  | .pulse code left true => { phase := .setting (.pulse code left false), current, signal }
  | .pulse code left false =>
    if current = .error code then
      match left with
      | 0 => { phase := .setting (.pause code), current, signal }
      | left + 1 => { phase := .setting (.pulse code left true), current, signal }
    else
      enter current signal
  | .connecting false | .connected false | .pause _ => enter current signal

/-- The timeout looks at the signal first. -/
def react (s : Task) : Event → Option (Task × List Observation)
  | .signalled state => some ({ s with signal := s.signal.signal state }, [])
  | .set =>
    match s.phase with
    | .setting step => some ({ s with phase := .waiting step }, [.led step.on])
    | .waiting _ => none
  | .elapsed =>
    match s.phase with
    | .setting _ => none
    | .waiting step =>
      if s.signal.value = none then some (next step s.current s.signal, [.held step.millis])
      else none
  | .woken =>
    match s.phase with
    | .setting _ => none
    | .waiting step => s.signal.wait.map fun (state, signal) => (next step state signal, [])

def beaconTask : Machine Task Event Observation where
  start := enter .connecting .new
  step := react

/-! ## Patterns -/

def blink : List Observation := [.led true, .held 200, .led false, .held 200]

/-- What a state looks like. -/
def pattern : BeaconState → List Observation
  | .connecting => [.led true, .held 100, .led false, .held 100]
  | .connected => [.led true, .held 50, .led false, .held 2000]
  | .error code =>
    (List.replicate (blinks code) blink).flatten ++ [.led false, .held 1000]

/-- The state that the task goes by from now on, if no more come. -/
def Task.latest (s : Task) : BeaconState := s.signal.value.getD s.current

/-- The state whose pattern a step is part of. -/
def Step.state : Step → BeaconState
  | .connecting _ => .connecting
  | .connected _ => .connected
  | .pulse code _ _ | .pause code => .error code

def Phase.step : Phase → Step
  | .setting step | .waiting step => step

/-- What is still to come of a pattern after the wait of a step. -/
def Step.after (latest : BeaconState) : Step → List Observation
  | .connecting true => [.led false, .held 100]
  | .connected true => [.led false, .held 2000]
  | .pulse code left true =>
    [.led false, .held 200] ++ if latest = .error code then
      (List.replicate left blink).flatten ++ [.led false, .held 1000] else []
  | .pulse code left false =>
    if latest = .error code then
      (List.replicate left blink).flatten ++ [.led false, .held 1000] else []
  | .connecting false | .connected false | .pause _ => []

/-- What is still to come of the pattern shown. -/
def Task.rest (s : Task) : List Observation :=
  let wait := if s.signal.value = none then [.held s.phase.step.millis] else []
  match s.phase with
  | .setting step => .led step.on :: (wait ++ step.after s.latest)
  | .waiting step => wait ++ step.after s.latest

/-- A wait with the LED on is one of the pattern of the current state. -/
def Task.Showing (s : Task) : Prop :=
  s.phase.step.on = true → s.current = s.phase.step.state

section

variable {s s' t : Task} {e : Event} {es fs : List Event} {o os os' : List Observation}
  {current : BeaconState} {step : Step}

theorem blinks_pos (code : UInt8) : blinks code - 1 + 1 = blinks code :=
  Nat.sub_add_cancel (Nat.le_max_right _ _)

theorem rest_enter (current : BeaconState) : (enter current .new).rest = pattern current := by
  cases current with
  | connecting => rfl
  | connected => rfl
  | error code =>
    rw [pattern, ← blinks_pos code]
    simp [enter, firstStep, Task.rest, Task.latest, Signal.tryTake, Signal.new, Phase.step,
      Step.on, Step.millis, Step.after, blink, List.replicate_succ]

/-- Once a wait is over, the pattern goes on, or the next one starts. -/
theorem rest_next (step : Step) (current : BeaconState) :
    (next step current .new).rest = step.after current ∨
      step.after current = [] ∧ (next step current .new).rest = pattern current := by
  cases step with
  | connecting on =>
    cases on with
    | true => exact .inl rfl
    | false => exact .inr ⟨rfl, rest_enter current⟩
  | connected on =>
    cases on with
    | true => exact .inl rfl
    | false => exact .inr ⟨rfl, rest_enter current⟩
  | pulse code left on =>
    cases on with
    | true => exact .inl rfl
    | false =>
      by_cases hcode : current = .error code
      · left
        cases left with
        | zero =>
          simp [next, hcode, Task.rest, Step.after, Signal.new, Phase.step, Step.on, Step.millis]
        | succ left =>
          simp [next, hcode, Task.rest, Step.after, Signal.new, Phase.step, Step.on, Step.millis,
            Task.latest, blink, List.replicate_succ]
      · right
        have hnext : next (.pulse code left false) current .new = enter current .new :=
          if_neg hcode
        rw [Step.after, if_neg hcode, hnext]
        exact ⟨rfl, rest_enter current⟩
  | pause code => exact .inr ⟨rfl, rest_enter current⟩

theorem latest_next (step : Step) (current : BeaconState) :
    (next step current .new).latest = current := by
  unfold next
  split
  · rfl
  · rfl
  · rfl
  · split
    · split <;> rfl
    · rfl
  all_goals rfl

theorem showing_enter (current : BeaconState) : (enter current .new).Showing := by
  cases current <;> exact fun _ => rfl

theorem showing_next (step : Step) (current : BeaconState) :
    (next step current .new).Showing := by
  unfold next
  split
  · nofun
  · nofun
  · nofun
  · split
    · next hcode =>
      split
      · nofun
      · exact fun _ => hcode
    · exact showing_enter current
  all_goals exact showing_enter current

/-- The end of a wait, after which the task goes by the latest state. -/
theorem step_waited {wait : List Observation} (h : s.rest = wait ++ step.after s.latest) :
    (next step s.latest .new).Showing ∧ (next step s.latest .new).latest = s.latest ∧
      (s.rest = wait ++ (next step s.latest .new).rest ∨
        s.rest = wait ∧ (next step s.latest .new).rest = pattern s.latest) := by
  refine ⟨showing_next step s.latest, latest_next step s.latest, ?_⟩
  rcases rest_next step s.latest with hrest | ⟨hnil, hrest⟩
  · exact .inl (by rw [hrest, h])
  · exact .inr ⟨by rw [h, hnil, List.append_nil], hrest⟩

theorem step_quiet (h : s.Showing) (hquiet : ∀ state, e ≠ .signalled state)
    (hs : react s e = some (s', o)) : s'.Showing ∧ s'.latest = s.latest ∧
      (s.rest = o ++ s'.rest ∨ s.rest = o ∧ s'.rest = pattern s.latest) := by
  obtain ⟨phase, current, ⟨value⟩⟩ := s
  cases e with
  | signalled state => exact absurd rfl (hquiet state)
  | set =>
    cases phase with
    | setting step =>
      cases hs
      exact ⟨h, rfl, .inl rfl⟩
    | waiting step => cases hs
  | elapsed =>
    cases phase with
    | setting step => cases hs
    | waiting step =>
      cases value with
      | some state => cases hs
      | none =>
        cases hs
        have hrest : Task.rest ⟨.waiting step, current, ⟨none⟩⟩ =
          [.held step.millis] ++ step.after current := rfl
        exact step_waited hrest
  | woken =>
    cases phase with
    | setting step => cases hs
    | waiting step =>
      cases value with
      | some state =>
        cases hs
        have hrest : Task.rest ⟨.waiting step, current, ⟨some state⟩⟩ =
          [] ++ step.after state := rfl
        exact step_waited hrest
      | none => cases hs

theorem showing_run (h : beaconTask.run es = some (s, os)) : s.Showing := by
  refine Machine.run_history (I := fun s _ _ => s.Showing) (showing_enter _) ?_ h
  intro s es os e s' o hs hstep
  by_cases hquiet : ∃ state, e = .signalled state
  · obtain ⟨state, rfl⟩ := hquiet
    cases hstep
    exact hs
  · exact (step_quiet hs (fun state he => hquiet ⟨state, he⟩) hstep).1

/-- How long the LED stays in each of the states shown, added up. -/
def heldMillis (os : List Observation) : Nat :=
  (os.map fun
    | .led _ => 0
    | .held millis => millis).sum

theorem heldMillis_append (os os' : List Observation) :
    heldMillis (os ++ os') = heldMillis os + heldMillis os' := by
  simp only [heldMillis, List.map_append, List.sum_append]

/-- After the wait of a step, a pattern that is given up has its dark part left. -/
theorem heldMillis_after {latest : BeaconState} (h : latest ≠ step.state) :
    heldMillis (step.after latest) ≤ if step.on then 2000 else 0 := by
  cases step with
  | connecting on => cases on <;> simp [Step.after, Step.on, heldMillis]
  | connected on => cases on <;> simp [Step.after, Step.on, heldMillis]
  | pulse code left on =>
    have hcode : latest ≠ .error code := h
    cases on <;> simp [Step.after, hcode, Step.on, heldMillis]
  | pause code => simp [Step.after, heldMillis]

theorem millis_of_dark (h : step.on = false) : step.millis ≤ 2000 := by
  cases step with
  | connected on =>
    cases on with
    | true => cases h
    | false => exact Nat.le_refl _
  | connecting _ | pulse _ _ _ | pause _ => simp [Step.millis]

/-- What is left of the pattern of another state is over within two seconds. -/
theorem heldMillis_rest (h : s.Showing) (hother : s.latest ≠ s.phase.step.state) :
    heldMillis s.rest ≤ 2000 := by
  have hafter := heldMillis_after hother
  have hled : heldMillis s.rest =
      heldMillis (if s.signal.value = none then [.held s.phase.step.millis] else []) +
        heldMillis (s.phase.step.after s.latest) := by
    rw [← heldMillis_append, Task.rest]
    cases s.phase <;> simp [heldMillis, Phase.step]
  rw [hled]
  by_cases hon : s.phase.step.on = true
  · have hpending : s.signal.value ≠ none := by
      intro hnone
      refine hother ?_
      rw [Task.latest, hnone]
      exact h hon
    rw [if_neg hpending]
    rw [if_pos hon] at hafter
    simpa [heldMillis] using hafter
  · have hdark := millis_of_dark (Bool.not_eq_true _ ▸ hon)
    rw [if_neg hon] at hafter
    have hwait : heldMillis (if s.signal.value = none then [.held s.phase.step.millis] else []) ≤
        2000 := by
      split
      · simpa [heldMillis] using hdark
      · exact Nat.zero_le _
    omega

/-- From when no more states come, the LED shows the rest of a pattern and then the pattern of
the last state again and again; the rest of the pattern of another state takes at most two
seconds. -/
theorem settles (h : beaconTask.run es = some (s, os))
    (hquiet : ∀ e ∈ fs, ∀ state, e ≠ .signalled state)
    (h' : beaconTask.runFrom s fs = some (t, os')) :
    (∃ n, os' <+: s.rest ++ (List.replicate n (pattern s.latest)).flatten) ∧
      (s.latest ≠ s.phase.step.state → heldMillis s.rest ≤ 2000) := by
  have hshowing := showing_run h
  refine ⟨?_, heldMillis_rest hshowing⟩
  refine Machine.runFrom_periodic (I := fun u => u.Showing ∧ u.latest = s.latest)
    (P := fun e => ∀ state, e ≠ .signalled state) ?_ ⟨hshowing, rfl⟩ hquiet h'
  rintro u e u' o ⟨hu, hlatest⟩ he hstep
  obtain ⟨hu', hlatest', hrest⟩ := step_quiet hu he hstep
  rw [hlatest] at hlatest' hrest
  exact ⟨⟨hu', hlatest'⟩, hrest⟩

def associationLost : List Event := [.set, .signalled (.error 2)]

def quiet : List Event := [.woken, .set, .elapsed, .set, .elapsed, .set, .elapsed]

/-- The state is signalled while the LED is on. -/
theorem settles_associationLost :
    ∃ s os, beaconTask.run (associationLost ++ quiet) = some (s, os) ∧
      ∃ n, os <+: [.led true, .led false, .held 100] ++
        (List.replicate n (pattern (.error 2))).flatten := by
  have hfirst : ∃ s os, beaconTask.run associationLost = some (s, os) ∧ os = [.led true] ∧
      s.latest = .error 2 ∧ s.rest = [.led false, .held 100] := ⟨_, _, rfl, rfl, rfl, rfl⟩
  obtain ⟨s, os, hrun, rfl, hlatest, hrest⟩ := hfirst
  have hall : ∃ t os', beaconTask.run (associationLost ++ quiet) = some (t, os') := ⟨_, _, rfl⟩
  obtain ⟨t, os', hall⟩ := hall
  obtain ⟨u, os₁, os₂, hrun', hquiet, rfl⟩ := Machine.runFrom_append.mp hall
  cases hrun.symm.trans hrun'
  obtain ⟨⟨n, hn⟩, -⟩ := settles hrun (by simp [quiet]) hquiet
  rw [hlatest, hrest] at hn
  exact ⟨t, _, hall, n, (List.prefix_append_right_inj _).mpr hn⟩

end

/-! ## What a pattern says -/

end Beacon

/-- The count that reports where a check failed. -/
def Ota.OtaError.blinkCode : Ota.OtaError → UInt8
  | .dns => 10
  | .connect => 11
  | .tls => 12
  | .timeout => 13
  | .url | .request | .auth | .head | .version => 14
  | .sha => 15
  | .update code =>
    if code = "hash_mismatch" then 16
    else if code = "too_short" then 17
    else if code = "too_long" then 18
    else if code = "flash" then 19
    else if code = "read" then 20
    else if code = "oversize" then 21
    else 14
  | .transport (.head _) => 14
  | .transport _ => 22

namespace Beacon

/-- The states that the tasks signal. -/
inductive Signalled : BeaconState → Prop where
  | connecting : Signalled .connecting
  | connected : Signalled .connected
  /-- The join failed, the association was lost, or there was no lease. -/
  | wifi {code : UInt8} : code ∈ [1, 2, 3] → Signalled (.error code)
  | ota (e : Ota.OtaError) : Signalled (.error e.blinkCode)

section

variable {state state' : BeaconState} {os : List Observation} {code : UInt8}

theorem blinkCode_range (e : Ota.OtaError) : 10 ≤ e.blinkCode ∧ e.blinkCode ≤ 22 := by
  cases e with
  | transport error =>
    cases error with
    | head reason => exact ⟨show (10 : UInt8) ≤ 14 by decide, show (14 : UInt8) ≤ 22 by decide⟩
    | _ => exact ⟨by decide, by decide⟩
  | update code =>
    unfold Ota.OtaError.blinkCode
    dsimp only
    repeat' split
    all_goals exact ⟨by decide, by decide⟩
  | _ => exact ⟨by decide, by decide⟩

theorem Signalled.blinks_eq (h : Signalled (.error code)) : blinks code = code.toNat := by
  have hpos : 1 ≤ code.toNat := by
    cases h with
    | wifi hcode =>
      simp only [List.mem_cons, List.not_mem_nil, or_false] at hcode
      rcases hcode with rfl | rfl | rfl <;> decide
    | ota e => exact Nat.le_trans (by decide) (UInt8.le_iff_toNat_le.mp (blinkCode_range e).1)
  exact Nat.max_eq_left hpos

/-- The pause comes after the last pulse. -/
theorem pulses_eq {n n' : Nat} {more : List Observation}
    (h : (List.replicate n blink).flatten ++ [.led false, .held 1000] <+:
      (List.replicate n' blink).flatten ++ [.led false, .held 1000] ++ more) : n = n' := by
  induction n generalizing n' with
  | zero =>
    cases n' with
    | zero => rfl
    | succ n' => simp [List.replicate_succ, blink, List.cons_prefix_cons] at h
  | succ n ih =>
    cases n' with
    | zero => simp [List.replicate_succ, blink, List.cons_prefix_cons] at h
    | succ n' =>
      refine congrArg _ (ih ?_)
      simpa [List.replicate_succ, blink, List.cons_prefix_cons] using h

/-- An error pattern begins with a pulse. -/
theorem pattern_error (code : UInt8) : ∃ tail, pattern (.error code) =
    .led true :: .held 200 :: .led false :: .held 200 :: tail := by
  obtain ⟨more, hmore⟩ : ∃ more, blinks code = more + 1 := ⟨_, (blinks_pos code).symm⟩
  refine ⟨(List.replicate more blink).flatten ++ [.led false, .held 1000], ?_⟩
  rw [pattern, hmore]
  rfl

theorem state_of_prefix (h : Signalled state) (h' : Signalled state') {more : List Observation}
    (hfront : pattern state <+: pattern state' ++ more) : state = state' := by
  cases state with
  | error code =>
    cases state' with
    | error code' =>
      have hcodes := pulses_eq hfront
      rw [h.blinks_eq, h'.blinks_eq] at hcodes
      rw [UInt8.toNat_inj.mp hcodes]
    | _ =>
      obtain ⟨tail, htail⟩ := pattern_error code
      rw [htail] at hfront
      simp [pattern, List.cons_prefix_cons] at hfront
  | _ =>
    cases state' with
    | error code' =>
      obtain ⟨tail, htail⟩ := pattern_error code'
      rw [htail] at hfront
      simp [pattern, List.cons_prefix_cons] at hfront
    | _ => first | rfl | simp [pattern, List.cons_prefix_cons] at hfront

/-- One period of what the LED shows tells which state it is. -/
theorem period_identifies (h : Signalled state) (h' : Signalled state') {n n' : Nat}
    (hos : os <+: (List.replicate n (pattern state)).flatten)
    (hos' : os <+: (List.replicate n' (pattern state')).flatten)
    (hlong : (pattern state).length ≤ os.length) : state = state' := by
  have hne : os ≠ [] := by
    intro hnil
    rw [hnil] at hlong
    cases state with
    | error code =>
      obtain ⟨tail, htail⟩ := pattern_error code
      simp [htail] at hlong
    | _ => simp [pattern] at hlong
  cases n with
  | zero => exact absurd (List.prefix_nil.mp hos) hne
  | succ n =>
    cases n' with
    | zero => exact absurd (List.prefix_nil.mp hos') hne
    | succ n' =>
      rw [List.replicate_succ, List.flatten_cons] at hos hos'
      have hperiod : pattern state <+: os :=
        List.prefix_of_prefix_length_le (List.prefix_append _ _) hos hlong
      exact state_of_prefix h h' (hperiod.trans hos')

theorem period_identifies_version :
    BeaconState.error (Ota.OtaError.version).blinkCode = .error (Ota.OtaError.url).blinkCode := by
  have hos : pattern (.error 14) <+: (List.replicate 1 (pattern (.error 14))).flatten := by
    simp only [List.replicate_one, List.flatten_singleton, List.prefix_refl]
  exact period_identifies (.ota .version) (.ota .url) hos hos (Nat.le_refl _)

end

end Beacon
end GarageDoor
