/-
Garage door timing and state policy: the relay interlock.

Deadlines are `u64` milliseconds.  The release profile builds without overflow
checks, so every addition to a deadline wraps.
-/
import GarageDoor.Library.Machine
import Mathlib.Algebra.Group.Nat.Defs

namespace GarageDoor
namespace Door

open Library

def relayPulseMs : Nat := 600
def relayCooldownMs : Nat := 2000

inductive DoorCommand where
  | trigger
  | queryStatus
  deriving DecidableEq, Repr

inductive RelayAction where
  | assertHigh
  | deassertLow
  deriving DecidableEq, Repr

inductive TriggerRejection where
  | pulseActive
  | cooldown (remainingMs : Nat)
  deriving DecidableEq, Repr

structure RelayInterlock where
  pulseEndMs : Option Nat
  cooldownEndMs : Option Nat
  deriving DecidableEq, Repr

def wrap64 (n : Nat) : Nat := n % 2 ^ 64

namespace RelayInterlock

def new : RelayInterlock := { pulseEndMs := none, cooldownEndMs := none }

def isPulsing (s : RelayInterlock) (nowMs : Nat) : Bool :=
  match s.pulseEndMs with
  | some endMs => nowMs < endMs
  | none => false

def trigger (s : RelayInterlock) (nowMs : Nat) :
    Except TriggerRejection RelayAction × RelayInterlock :=
  if s.isPulsing nowMs then
    (.error .pulseActive, s)
  else
    match s.cooldownEndMs.filter fun endMs => nowMs < endMs with
    | some cooldownEndMs => (.error (.cooldown ((cooldownEndMs - nowMs) % 2 ^ 32)), s)
    | none =>
      (.ok .assertHigh,
        { pulseEndMs := some (wrap64 (nowMs + relayPulseMs)), cooldownEndMs := none })

def poll (s : RelayInterlock) (nowMs : Nat) : Option RelayAction × RelayInterlock :=
  match s.pulseEndMs with
  | some endMs =>
    if endMs ≤ nowMs then
      (some .deassertLow,
        { pulseEndMs := none, cooldownEndMs := some (wrap64 (endMs + relayCooldownMs)) })
    else
      (none, s)
  | none => (none, s)

/-! ## What one call can do -/

/-- Times at which neither deadline computed from now wraps. -/
def InRange (nowMs : Nat) : Prop := nowMs < 2 ^ 64 - 1 - (relayPulseMs + relayCooldownMs)

instance (nowMs : Nat) : Decidable (InRange nowMs) :=
  inferInstanceAs (Decidable (nowMs < _))

theorem wrap64_of_lt {n : Nat} (h : n < 2 ^ 64) : wrap64 n = n := Nat.mod_eq_of_lt h

/-- A trigger is rejected by a running pulse, rejected by a running cooldown, or
starts a pulse.  A pulse that has run out without being polled stops nothing. -/
theorem trigger_cases (s : RelayInterlock) (now : Nat) :
    (∃ e, s.pulseEndMs = some e ∧ now < e ∧ s.trigger now = (.error .pulseActive, s)) ∨
    ((∀ e, s.pulseEndMs = some e → e ≤ now) ∧ ∃ c, s.cooldownEndMs = some c ∧ now < c ∧
      s.trigger now = (.error (.cooldown ((c - now) % 2 ^ 32)), s)) ∨
    ((∀ e, s.pulseEndMs = some e → e ≤ now) ∧ (∀ c, s.cooldownEndMs = some c → c ≤ now) ∧
      s.trigger now =
        (.ok .assertHigh, { pulseEndMs := some (wrap64 (now + relayPulseMs)),
                            cooldownEndMs := none })) := by
  obtain ⟨pulse, cooldown⟩ := s
  by_cases hp : ∃ e, pulse = some e ∧ now < e
  · obtain ⟨e, rfl, he⟩ := hp
    exact .inl ⟨e, rfl, he, by simp [trigger, isPulsing, he]⟩
  · have hover : ∀ e, pulse = some e → e ≤ now := by
      intro e he
      exact Nat.le_of_not_lt fun hlt => hp ⟨e, he, hlt⟩
    have hidle : isPulsing ⟨pulse, cooldown⟩ now = false := by
      cases pulse with
      | none => rfl
      | some e => simpa [isPulsing] using hover e rfl
    by_cases hc : ∃ c, cooldown = some c ∧ now < c
    · obtain ⟨c, rfl, hlt⟩ := hc
      exact .inr (.inl ⟨hover, c, rfl, hlt, by simp [trigger, hidle, Option.filter, hlt]⟩)
    · have hdone : ∀ c, cooldown = some c → c ≤ now := by
        intro c h
        exact Nat.le_of_not_lt fun hlt => hc ⟨c, h, hlt⟩
      have hnone : (cooldown.filter fun endMs => decide (now < endMs)) = none := by
        cases cooldown with
        | none => rfl
        | some c => simpa [Option.filter] using hdone c rfl
      exact .inr (.inr ⟨hover, hdone, by simp [trigger, hidle, hnone]⟩)

theorem poll_none {s : RelayInterlock} {now : Nat}
    (h : ∀ e, s.pulseEndMs = some e → now < e) : s.poll now = (none, s) := by
  obtain ⟨pulse, cooldown⟩ := s
  cases pulse with
  | none => rfl
  | some e =>
    have := h e rfl
    simp only [poll]
    rw [if_neg (by omega)]

theorem poll_some {s : RelayInterlock} {now e : Nat} (hs : s.pulseEndMs = some e)
    (h : e ≤ now) :
    s.poll now = (some .deassertLow,
      { pulseEndMs := none, cooldownEndMs := some (wrap64 (e + relayCooldownMs)) }) := by
  simp only [poll, hs, if_pos h]

end RelayInterlock

end Door
end GarageDoor
