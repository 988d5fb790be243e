/-
A microsecond clock held in 64 bits and its reading in whole milliseconds.
-/
import Mathlib.Data.Fin.Basic
import Mathlib.Algebra.GroupWithZero.Nat

namespace GarageDoor
namespace Library

abbrev Instant : Type := Fin (2 ^ 64)

namespace Instant

instance : NeZero (2 ^ 64) := ⟨by decide⟩

/-- The reading in milliseconds, rounded down. -/
def millis (t : Instant) : Nat := t.val / 1000

theorem millis_mono {s t : Instant} (h : s ≤ t) : s.millis ≤ t.millis :=
  Nat.div_le_div_right h

/-- A wait of `ms` milliseconds is seen in full after truncation. -/
theorem millis_add_le {s t : Instant} {ms : Nat} (h : s.val + ms * 1000 ≤ t.val) :
    s.millis + ms ≤ t.millis := by
  unfold millis
  omega

theorem millis_lt (t : Instant) : t.millis < 2 ^ 64 / 1000 + 1 := by
  have := t.isLt
  unfold millis
  omega

end Instant

/-- What happened and when the task read the clock for it. -/
structure Timed (ε : Type) where
  time : Instant
  event : ε
  deriving DecidableEq

end Library
end GarageDoor
