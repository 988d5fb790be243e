/-
Garage door timing and state policy: the reed switch debouncer.
-/
import Mathlib.Data.Nat.Basic

namespace GarageDoor
namespace Door

def reedDebounceMs : Nat := 50

inductive DoorState where
  | opened
  | closed
  deriving DecidableEq, Repr

/-- The state that a raw sample of the reed switch stands for. -/
def DoorState.ofReed (reedClosed : Bool) : DoorState := if reedClosed then .closed else .opened

/-- A candidate state is pending together with the time it was first seen. -/
structure ReedDebouncer where
  committed : DoorState
  pending : Option (DoorState × Nat)
  deriving DecidableEq, Repr

namespace ReedDebouncer

def new (initial : DoorState) : ReedDebouncer := { committed := initial, pending := none }

def state (d : ReedDebouncer) : DoorState := d.committed

def isPending (d : ReedDebouncer) : Bool := d.pending.isSome

def update (d : ReedDebouncer) (reedClosed : Bool) (nowMs : Nat) :
    Option DoorState × ReedDebouncer :=
  let desired := DoorState.ofReed reedClosed
  if desired = d.committed then
    (none, { d with pending := none })
  else
    match d.pending.filter fun (state, _) => state = desired with
    | some (_, sinceMs) =>
      if reedDebounceMs ≤ nowMs - sinceMs then
        (some desired, { committed := desired, pending := none })
      else
        (none, d)
    | none => (none, { d with pending := some (desired, nowMs) })

/-! ## What an update does -/

section

variable {d : ReedDebouncer} {reedClosed : Bool} {nowMs sinceMs : Nat}

theorem update_same (h : DoorState.ofReed reedClosed = d.committed) :
    d.update reedClosed nowMs = (none, { d with pending := none }) := if_pos h

theorem update_first (h : DoorState.ofReed reedClosed ≠ d.committed)
    (hpending : ∀ t, d.pending ≠ some (DoorState.ofReed reedClosed, t)) :
    d.update reedClosed nowMs =
      (none, { d with pending := some (DoorState.ofReed reedClosed, nowMs) }) := by
  have hfilter :
      (d.pending.filter fun (state, _) => state = DoorState.ofReed reedClosed) = none := by
    cases hp : d.pending with
    | none => rfl
    | some c =>
      refine Option.filter_eq_none_iff.mpr ?_
      intro ⟨state, t⟩ hc hstate
      cases hc
      exact hpending t (by rw [hp, of_decide_eq_true hstate])
  simp only [update, if_neg h, hfilter]

theorem update_pending (h : DoorState.ofReed reedClosed ≠ d.committed)
    (hpending : d.pending = some (DoorState.ofReed reedClosed, sinceMs)) :
    d.update reedClosed nowMs =
      if reedDebounceMs ≤ nowMs - sinceMs then
        (some (DoorState.ofReed reedClosed),
          { committed := DoorState.ofReed reedClosed, pending := none })
      else
        (none, d) := by
  have hfilter : (d.pending.filter fun (state, _) => state = DoorState.ofReed reedClosed) =
      some (DoorState.ofReed reedClosed, sinceMs) := by
    rw [hpending]
    exact Option.filter_some_pos (decide_eq_true rfl)
  simp only [update, if_neg h, hfilter]

theorem update_cases (d : ReedDebouncer) (reedClosed : Bool) (nowMs : Nat) :
    (DoorState.ofReed reedClosed = d.committed ∧
      d.update reedClosed nowMs = (none, { d with pending := none })) ∨
    (DoorState.ofReed reedClosed ≠ d.committed ∧
      (∀ t, d.pending ≠ some (DoorState.ofReed reedClosed, t)) ∧
      d.update reedClosed nowMs =
        (none, { d with pending := some (DoorState.ofReed reedClosed, nowMs) })) ∨
    (∃ sinceMs, DoorState.ofReed reedClosed ≠ d.committed ∧
      d.pending = some (DoorState.ofReed reedClosed, sinceMs) ∧
      ¬ reedDebounceMs ≤ nowMs - sinceMs ∧ d.update reedClosed nowMs = (none, d)) ∨
    (∃ sinceMs, DoorState.ofReed reedClosed ≠ d.committed ∧
      d.pending = some (DoorState.ofReed reedClosed, sinceMs) ∧
      reedDebounceMs ≤ nowMs - sinceMs ∧
      d.update reedClosed nowMs =
        (some (DoorState.ofReed reedClosed),
          { committed := DoorState.ofReed reedClosed, pending := none })) := by
  by_cases h : DoorState.ofReed reedClosed = d.committed
  · exact .inl ⟨h, update_same h⟩
  by_cases hpending : ∃ t, d.pending = some (DoorState.ofReed reedClosed, t)
  · obtain ⟨sinceMs, hp⟩ := hpending
    have hupdate : d.update reedClosed nowMs = _ := update_pending h hp
    by_cases hdue : reedDebounceMs ≤ nowMs - sinceMs
    · rw [if_pos hdue] at hupdate
      exact .inr (.inr (.inr ⟨sinceMs, h, hp, hdue, hupdate⟩))
    · rw [if_neg hdue] at hupdate
      exact .inr (.inr (.inl ⟨sinceMs, h, hp, hdue, hupdate⟩))
  · have hpending : ∀ t, d.pending ≠ some (DoorState.ofReed reedClosed, t) :=
      fun t ht => hpending ⟨t, ht⟩
    exact .inr (.inl ⟨h, hpending, update_first h hpending⟩)

/-- The committed state is the one emitted last. -/
theorem update_state (d : ReedDebouncer) (reedClosed : Bool) (nowMs : Nat) :
    (d.update reedClosed nowMs).2.state = (d.update reedClosed nowMs).1.getD d.state := by
  rcases update_cases d reedClosed nowMs with
    ⟨-, h⟩ | ⟨-, -, h⟩ | ⟨_, -, -, -, h⟩ | ⟨_, -, -, -, h⟩ <;> rw [h] <;> rfl

end

end ReedDebouncer

end Door
end GarageDoor
