/-
First-in first-out channels of bounded capacity.

A send waits for room and a receive for an item, so of the two ends one can always go on.
-/
import Mathlib.Data.List.Basic

namespace GarageDoor
namespace Library

structure Channel (α : Type) (capacity : Nat) where
  queue : List α
  bounded : queue.length ≤ capacity

namespace Channel

variable {α : Type} {n : Nat}

instance [DecidableEq α] : DecidableEq (Channel α n) := fun c d =>
  decidable_of_iff (c.queue = d.queue) (by cases c; cases d; simp)

def new : Channel α n := { queue := [], bounded := Nat.zero_le n }

theorem length_snoc_le {queue : List α} {a : α} (h : queue.length < n) :
    (queue ++ [a]).length ≤ n := by
  rw [List.length_append, List.length_singleton]
  exact h

/-- A send completes when there is room. -/
def send (c : Channel α n) (a : α) : Option (Channel α n) :=
  if h : c.queue.length < n then
    some { queue := c.queue ++ [a], bounded := length_snoc_le h }
  else
    none

/-- A receive completes when there is an item. -/
def receive (c : Channel α n) : Option (α × Channel α n) :=
  match c with
  | { queue := [], .. } => none
  | { queue := a :: queue, bounded } => some (a, { queue, bounded := Nat.le_of_succ_le bounded })

def isFull (c : Channel α n) : Prop := c.queue.length = n

variable {c c' : Channel α n} {a : α}

theorem send_eq_some : c.send a = some c' ↔ c.queue.length < n ∧ c'.queue = c.queue ++ [a] := by
  unfold send
  by_cases h : c.queue.length < n
  · rw [dif_pos h, Option.some.injEq]
    constructor
    · rintro rfl
      exact ⟨h, rfl⟩
    · rintro ⟨-, hqueue⟩
      cases c'
      cases hqueue
      rfl
  · rw [dif_neg h]
    exact ⟨nofun, fun h' => absurd h'.1 h⟩

theorem send_eq_none : c.send a = none ↔ c.isFull := by
  have hbounded := c.bounded
  unfold send isFull
  by_cases h : c.queue.length < n
  · rw [dif_pos h]
    exact ⟨nofun, fun h' => absurd h' (Nat.ne_of_lt h)⟩
  · rw [dif_neg h]
    exact ⟨fun _ => Nat.le_antisymm hbounded (Nat.not_lt.mp h), fun _ => rfl⟩

theorem receive_eq_some : c.receive = some (a, c') ↔ c.queue = a :: c'.queue := by
  obtain ⟨queue, hbounded⟩ := c
  cases queue with
  | nil => exact ⟨nofun, nofun⟩
  | cons b queue =>
    constructor
    · intro h
      cases h
      rfl
    · intro h
      cases c'
      cases h
      rfl

/-- Whatever the channel holds, one of its ends can go on. -/
theorem send_or_receive (hn : 0 < n) (c : Channel α n) (a : α) :
    (∃ c', c.send a = some c') ∨ ∃ b c', c.receive = some (b, c') := by
  cases hsend : c.send a with
  | some c' => exact .inl ⟨c', rfl⟩
  | none =>
    have hfull : c.queue.length = n := send_eq_none.mp hsend
    obtain ⟨b, queue, hqueue⟩ := List.exists_cons_of_length_pos (hfull ▸ hn)
    have hrest : queue.length ≤ n := by
      have hbounded := c.bounded
      rw [hqueue, List.length_cons] at hbounded
      omega
    exact .inr ⟨b, ⟨queue, hrest⟩, receive_eq_some.mpr hqueue⟩

/-- A receive makes room. -/
theorem send_after_receive {b : α} (h : c.receive = some (b, c')) (a : α) :
    ∃ c'', c'.send a = some c'' := by
  have hbounded := c.bounded
  rw [receive_eq_some.mp h, List.length_cons] at hbounded
  exact ⟨⟨c'.queue ++ [a], length_snoc_le hbounded⟩, send_eq_some.mpr ⟨hbounded, rfl⟩⟩

end Channel

end Library
end GarageDoor
