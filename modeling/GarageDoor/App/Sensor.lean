/-
The reed switch monitor task.

The reed pin is a level for every tick of the clock, and the task sees it at the ticks
when it runs.  A timer may wake the task late but not early.
-/
import GarageDoor.Core.Door.Debounce
import GarageDoor.Library.Clock
import GarageDoor.Library.Machine

namespace GarageDoor
namespace Sensor

open Library Door

inductive Phase where
  /-- Before the initial sample. -/
  | starting
  /-- About to sample for the first time in the loop. -/
  | entering
  /-- Asleep while a candidate is pending. -/
  | sleeping
  /-- Awaiting the level opposite to the last sample, with a timeout. -/
  | waiting (closed : Bool)
  deriving DecidableEq, Repr

inductive Event where
  | started
  | entered
  | slept
  | timedOut
  /-- The awaited level was there at `seen`. -/
  | reached (seen : Nat)
  deriving DecidableEq, Repr

inductive Observation where
  | initial (state : DoorState)
  /-- A committed state is signalled. -/
  | committed (state : DoorState) (time : Nat)
  deriving DecidableEq, Repr

structure Task where
  phase : Phase
  debouncer : ReedDebouncer
  clock : Instant
  deriving DecidableEq

def start : Task := { phase := .starting, debouncer := .new .closed, clock := 0 }

/-- One round of the loop: sample, debounce and go to wait. -/
def sample (reed : Nat → Bool) (s : Task) (t : Instant) : Task × List Observation :=
  let closed := reed t.val
  let (emitted, debouncer) := s.debouncer.update closed t.millis
  let phase := if debouncer.isPending then .sleeping else .waiting closed
  ({ phase, debouncer, clock := t },
    match emitted with
    | some state => [.committed state t.val]
    | none => [])

/-- The tick `reedDebounceMs` after a reading of the clock. -/
def debounced (t : Instant) : Nat := t.val + reedDebounceMs * 1000

def react (reed : Nat → Bool) (s : Task) (t : Instant) :
    Phase → Event → Option (Task × List Observation)
  | .starting, .started =>
    let initial := DoorState.ofReed (reed t.val)
    some ({ phase := .entering, debouncer := .new initial, clock := t }, [.initial initial])
  | .entering, .entered => some (sample reed s t)
  | .sleeping, .slept => if debounced s.clock ≤ t.val then some (sample reed s t) else none
  | .waiting _, .timedOut => if debounced s.clock ≤ t.val then some (sample reed s t) else none
  | .waiting closed, .reached seen =>
    if s.clock.val ≤ seen ∧ seen ≤ t.val ∧ reed seen ≠ closed then some (sample reed s t)
    else none
  | _, _ => none

def step (reed : Nat → Bool) (s : Task) (e : Timed Event) :
    Option (Task × List Observation) :=
  if s.clock ≤ e.time then react reed s e.time s.phase e.event else none

def sensorTask (reed : Nat → Bool) : Machine Task (Timed Event) Observation where
  start := start
  step := step reed

/-! ## The promise and its condition -/

/-- The pin was at the level of `state` all through the debounce interval up to `t`. -/
def Stable (reed : Nat → Bool) (state : DoorState) (t : Nat) : Prop :=
  ∀ u, u ≤ t → t ≤ u + reedDebounceMs * 1000 → DoorState.ofReed (reed u) = state

def CommitsStable (reed : Nat → Bool) (os : List Observation) : Prop :=
  ∀ state t, .committed state t ∈ os → Stable reed state t

/-- The task wakes from the sleep over a candidate to find the pin at its level, which the
pin had left within the debounce interval. -/
def Bounced (reed : Nat → Bool) (s : Task) (e : Timed Event) : Prop :=
  e.event = .slept ∧ ∃ state sinceMs u, s.debouncer.pending = some (state, sinceMs) ∧
    DoorState.ofReed (reed e.time.val) = state ∧ DoorState.ofReed (reed u) ≠ state ∧
    u ≤ e.time.val ∧ e.time.val ≤ u + reedDebounceMs * 1000

/-! ## One round -/

/-- A candidate is pending exactly while the task sleeps, since the last sample. -/
structure Sleeps (s : Task) : Prop where
  sleeping : s.phase = .sleeping → ∃ state, state ≠ s.debouncer.committed ∧
    s.debouncer.pending = some (state, s.clock.millis)
  awake : s.phase ≠ .sleeping → s.debouncer.pending = none

section

variable {reed : Nat → Bool} {s s' : Task} {e : Timed Event} {os o : List Observation}

theorem sleeps_start : Sleeps start := ⟨nofun, fun _ => rfl⟩

/-- Without a candidate a sample commits nothing. -/
theorem sample_awake (hpending : s.debouncer.pending = none) (t : Instant) :
    Sleeps (sample reed s t).1 ∧ (sample reed s t).2 = [] := by
  by_cases hsame : DoorState.ofReed (reed t.val) = s.debouncer.committed
  · have hupdate : s.debouncer.update (reed t.val) t.millis = _ := ReedDebouncer.update_same hsame
    simp only [sample, hupdate]
    exact ⟨⟨nofun, fun _ => rfl⟩, trivial⟩
  · have hupdate : s.debouncer.update (reed t.val) t.millis = _ :=
      ReedDebouncer.update_first hsame (by simp [hpending])
    simp only [sample, hupdate]
    exact ⟨⟨fun _ => ⟨_, hsame, rfl⟩, fun h => absurd rfl h⟩, trivial⟩

/-- A candidate that is due is committed if the pin is at its level, and dropped if not. -/
theorem sample_candidate {state : DoorState} {sinceMs : Nat} {t : Instant}
    (hcommitted : state ≠ s.debouncer.committed)
    (hpending : s.debouncer.pending = some (state, sinceMs))
    (hdue : sinceMs + reedDebounceMs ≤ t.millis) :
    Sleeps (sample reed s t).1 ∧ (sample reed s t).2 =
      if DoorState.ofReed (reed t.val) = state then [.committed state t.val] else [] := by
  by_cases hlevel : DoorState.ofReed (reed t.val) = state
  · have hupdate : s.debouncer.update (reed t.val) t.millis = _ :=
      ReedDebouncer.update_pending (hlevel ▸ hcommitted) (hlevel ▸ hpending)
    rw [if_pos (Nat.le_sub_of_add_le' hdue)] at hupdate
    simp only [sample, hupdate, if_pos hlevel]
    exact ⟨⟨nofun, fun _ => rfl⟩, by rw [hlevel]⟩
  · have hsame : DoorState.ofReed (reed t.val) = s.debouncer.committed := by
      generalize DoorState.ofReed (reed t.val) = level at hlevel ⊢
      generalize s.debouncer.committed = committed at hcommitted ⊢
      cases level <;> cases committed <;> cases state <;> simp_all
    have hupdate : s.debouncer.update (reed t.val) t.millis = _ := ReedDebouncer.update_same hsame
    simp only [sample, hupdate, if_neg hlevel]
    exact ⟨⟨nofun, fun _ => rfl⟩, trivial⟩

/-- Only the sleep over a candidate ends in a commit, and it does if the pin is at the
level of the candidate. -/
theorem step_cases (hs : Sleeps s) (h : step reed s e = some (s', o)) :
    Sleeps s' ∧
    ((∀ state t, .committed state t ∉ o) ∧
        (e.event = .slept → ∀ state sinceMs, s.debouncer.pending = some (state, sinceMs) →
          DoorState.ofReed (reed e.time.val) ≠ state) ∨
      ∃ state sinceMs, e.event = .slept ∧ s.debouncer.pending = some (state, sinceMs) ∧
        DoorState.ofReed (reed e.time.val) = state ∧ o = [.committed state e.time.val]) := by
  have hawake : ∀ t, s.phase ≠ .sleeping → sample reed s t = (s', o) →
      Sleeps s' ∧ ∀ state t, .committed state t ∉ o := by
    intro t hphase hsample
    have hspec : Sleeps (sample reed s t).1 ∧ (sample reed s t).2 = [] :=
      sample_awake (hs.awake hphase) t
    rw [hsample] at hspec
    have ho : o = [] := hspec.2
    exact ⟨hspec.1, by simp [ho]⟩
  unfold step at h
  split at h
  · generalize hphase : s.phase = phase at h
    generalize hevent : e.event = event at h ⊢
    unfold react at h
    -- The start, the first round, and rounds after a sleep, a timeout and a level.
    split at h
    · cases h
      exact ⟨⟨nofun, fun _ => rfl⟩, .inl ⟨by simp, nofun⟩⟩
    · obtain ⟨hsleeps, hnone⟩ := hawake e.time (by simp [hphase]) (Option.some.inj h)
      exact ⟨hsleeps, .inl ⟨hnone, nofun⟩⟩
    · split at h
      · next hwoken =>
        obtain ⟨state, hcommitted, hpending⟩ := hs.sleeping hphase
        have hspec : Sleeps (sample reed s e.time).1 ∧ (sample reed s e.time).2 =
            if DoorState.ofReed (reed e.time.val) = state then
              [.committed state e.time.val] else [] :=
          sample_candidate hcommitted hpending (Instant.millis_add_le hwoken)
        rw [Option.some.inj h] at hspec
        have ho : o = if DoorState.ofReed (reed e.time.val) = state then
            [.committed state e.time.val] else [] := hspec.2
        refine ⟨hspec.1, ?_⟩
        by_cases hlevel : DoorState.ofReed (reed e.time.val) = state
        · rw [if_pos hlevel] at ho
          exact .inr ⟨state, _, rfl, hpending, hlevel, ho⟩
        · rw [if_neg hlevel] at ho
          refine .inl ⟨by simp [ho], fun _ state' sinceMs hpending' => ?_⟩
          cases hpending.symm.trans hpending'
          exact hlevel
      · cases h
    · split at h
      · obtain ⟨hsleeps, hnone⟩ := hawake e.time (by simp [hphase]) (Option.some.inj h)
        exact ⟨hsleeps, .inl ⟨hnone, nofun⟩⟩
      · cases h
    · split at h
      · obtain ⟨hsleeps, hnone⟩ := hawake e.time (by simp [hphase]) (Option.some.inj h)
        exact ⟨hsleeps, .inl ⟨hnone, nofun⟩⟩
      · cases h
    · cases h
  · cases h

/-! ## Runs -/

/-- Every committed state was stable exactly if the pin never left the level of a candidate
and came back to it while the task slept. -/
theorem commitsStable_iff {es : List (Timed Event)}
    (h : (sensorTask reed).run es = some (s, os)) :
    CommitsStable reed os ↔ (sensorTask reed).Along (fun s e => ¬ Bounced reed s e) start es := by
  refine Machine.run_iff_along (m := sensorTask reed) (I := fun s _ _ => Sleeps s) sleeps_start
    (by simp [CommitsStable]) (fun hs hstep => (step_cases hs hstep).1) ?_ ?_ h
  · intro s es os e s' o hs hstep hbounced hstable state t hmem
    rcases List.mem_append.mp hmem with hmem | hmem
    · exact hstable state t hmem
    rcases (step_cases hs hstep).2 with ⟨hnone, -⟩ |
      ⟨state', sinceMs, hslept, hpending, hlevel, rfl⟩
    · exact absurd hmem (hnone state t)
    · cases List.mem_singleton.mp hmem
      intro u hle hwithin
      by_contra haway
      exact hbounced ⟨hslept, state, sinceMs, u, hpending, hlevel, haway, hle, hwithin⟩
  · intro s es os e s' o os' hs hstep hstable hbounced
    obtain ⟨hslept, state, sinceMs, u, hpending, hlevel, haway, hle, hwithin⟩ := hbounced
    rcases (step_cases hs hstep).2 with ⟨-, hnone⟩ | ⟨state', _, -, hpending', -, rfl⟩
    · exact hnone hslept state sinceMs hpending hlevel
    · cases hpending.symm.trans hpending'
      exact haway (hstable state e.time.val (by simp) u hle hwithin)

/-- A closed door whose switch opens for ten ticks, twice. -/
def glitches (u : Nat) : Bool := !(10 ≤ u && u < 20 || 50010 ≤ u && u < 50020)

def sampledGlitches : List (Timed Event) :=
  [⟨0, .started⟩, ⟨0, .entered⟩, ⟨10, .reached 10⟩, ⟨50010, .slept⟩]

theorem commitsStable_iff_glitches : ∃ s os,
    (sensorTask glitches).run sampledGlitches = some (s, os) ∧
      (CommitsStable glitches os ↔
        (sensorTask glitches).Along (fun s e => ¬ Bounced glitches s e) start
          sampledGlitches) :=
  ⟨_, _, rfl, commitsStable_iff rfl⟩

/-- The task reports an open door although the switch was closed in between. -/
theorem glitches_committed : ∃ s os,
    (sensorTask glitches).run sampledGlitches = some (s, os) ∧ ¬ CommitsStable glitches os := by
  refine ⟨_, _, rfl, fun hstable => ?_⟩
  have hopen := hstable .opened 50010 (by decide) 30000 (by decide) (by decide)
  exact absurd hopen (by decide)

end

end Sensor
end GarageDoor
