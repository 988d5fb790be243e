/-
Signals: one-place cells that hold the latest value given and not yet taken.

A consumer that keeps a copy of what it took sees the latest value as the one in the
cell, or else its copy.
-/
import Mathlib.Data.Option.Basic

namespace GarageDoor
namespace Library

structure Signal (α : Type) where
  value : Option α
  deriving DecidableEq, Repr

namespace Signal

variable {α : Type}

def new : Signal α := { value := none }

/-- The value given replaces the one that was not taken. -/
def signal (_s : Signal α) (a : α) : Signal α := { value := some a }

def tryTake (s : Signal α) : Option α × Signal α := (s.value, new)

/-- A wait completes when there is a value to take. -/
def wait (s : Signal α) : Option (α × Signal α) := s.value.map fun a => (a, new)

/-- The value a consumer with a copy would go by if it looked. -/
def latest (s : Signal α) (copy : Option α) : Option α := s.value.or copy

@[simp] theorem latest_new (copy : Option α) : (new : Signal α).latest copy = copy := rfl

@[simp] theorem latest_signal (s : Signal α) (a : α) (copy : Option α) :
    (s.signal a).latest copy = some a := rfl

theorem wait_eq_some {s s' : Signal α} {a : α} :
    s.wait = some (a, s') ↔ s.value = some a ∧ s' = new := by
  cases hs : s.value with
  | none => simp [wait, hs]
  | some b => simp [wait, hs, eq_comm]

theorem latest_wait {s s' : Signal α} {a : α} (h : s.wait = some (a, s')) (copy : Option α) :
    s'.latest (some a) = s.latest copy := by
  obtain ⟨hvalue, rfl⟩ := wait_eq_some.mp h
  rw [latest_new, latest, hvalue]
  rfl

end Signal

end Library
end GarageDoor
