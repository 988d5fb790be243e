/-
NOR flash behind a writer that erases as it goes.

Programming a cell only clears bits.  The writer erases the sector of a byte before
it programs the byte, unless that is the sector it erased last.
-/
import Mathlib.Data.Nat.Basic
import Mathlib.Data.List.Basic

namespace GarageDoor
namespace Library

structure Nor where
  cells : Nat → UInt8
  lastErased : Option Nat

namespace Nor

def erase (s : Nor) (n sector : Nat) : Nor where
  cells k := if k / n = sector then 255 else s.cells k
  lastErased := some sector

def program (s : Nor) (a : Nat) (b : UInt8) : Nor :=
  { s with cells := fun k => if k = a then s.cells k &&& b else s.cells k }

def writeByte (s : Nor) (n a : Nat) (b : UInt8) : Nor :=
  if s.lastErased = some (a / n) then s.program a b else (s.erase n (a / n)).program a b

/-- The bytes in order from address `a` on, over sectors of `n` bytes. -/
def write (s : Nor) (n a : Nat) : List UInt8 → Nor
  | [] => s
  | b :: data => (s.writeByte n a b).write n (a + 1) data

def read (s : Nor) (a len : Nat) : List UInt8 := (List.range len).map fun i => s.cells (a + i)

/-- What a cell holds once the writer is ready to program it, coming from `a`. -/
def background (s : Nor) (n a k : Nat) : UInt8 :=
  if s.lastErased = some (a / n) ∧ k / n = a / n then s.cells k else 255

variable {s : Nor} {n a k : Nat} {b : UInt8} {data : List UInt8}

theorem write_append (s : Nor) (n a : Nat) (data data' : List UInt8) :
    s.write n a (data ++ data') = (s.write n a data).write n (a + data.length) data' := by
  induction data generalizing s a with
  | nil => rfl
  | cons b data ih =>
    rw [List.cons_append, write, write, ih, List.length_cons, Nat.add_assoc, Nat.add_comm 1]

theorem lastErased_writeByte : (s.writeByte n a b).lastErased = some (a / n) := by
  unfold writeByte
  by_cases h : s.lastErased = some (a / n)
  · rw [if_pos h]
    exact h
  · rw [if_neg h]
    rfl

theorem cells_writeByte_self : (s.writeByte n a b).cells a = s.background n a a &&& b := by
  unfold writeByte background
  by_cases h : s.lastErased = some (a / n)
  · simp [h, program]
  · simp [h, program, erase]

/-- Another cell of the sector is as the writer left it, one of another sector as it was. -/
theorem cells_writeByte_ne (hk : k ≠ a) :
    (s.writeByte n a b).cells k =
      if k / n = a / n then s.background n a k else s.cells k := by
  unfold writeByte background
  by_cases h : s.lastErased = some (a / n)
  · by_cases hsector : k / n = a / n
    · simp [h, program, hk, hsector]
    · simp [h, program, hk, hsector]
  · simp [h, program, erase, hk]

/-- A cell below the address is not erased any more. -/
theorem cells_write_below (hk : k < a) (hsector : k / n = a / n → s.lastErased = some (a / n)) :
    (s.write n a data).cells k = s.cells k := by
  induction data generalizing s a with
  | nil => rfl
  | cons b data ih =>
    have hbelow : k / n ≤ a / n := Nat.div_le_div_right (Nat.le_of_lt hk)
    have hnext : a / n ≤ (a + 1) / n := Nat.div_le_div_right (Nat.le_succ a)
    rw [write, ih (by omega), cells_writeByte_ne (by omega)]
    · by_cases hsame : k / n = a / n
      · rw [if_pos hsame, background, if_pos ⟨hsector hsame, hsame⟩]
      · rw [if_neg hsame]
    · intro hsame
      rw [lastErased_writeByte, show (a + 1) / n = a / n by omega]

/-- Going on to the next address does not change what the cells ahead will hold. -/
theorem background_writeByte (hk : a < k) :
    (s.writeByte n a b).background n (a + 1) k = s.background n a k := by
  have hahead : (a + 1) / n ≤ k / n := Nat.div_le_div_right hk
  have hnext : a / n ≤ (a + 1) / n := Nat.div_le_div_right (Nat.le_succ a)
  simp only [background, lastErased_writeByte, Option.some.injEq]
  by_cases hsame : k / n = a / n
  · rw [if_pos (by omega), cells_writeByte_ne (by omega), if_pos hsame, background]
  · rw [if_neg (by omega), if_neg (by simp [hsame])]

theorem cells_write {i : Nat} (hi : i < data.length) :
    (s.write n a data).cells (a + i) = s.background n a (a + i) &&& data[i] := by
  induction data generalizing s a i with
  | nil => cases hi
  | cons b data ih =>
    cases i with
    | zero =>
      rw [Nat.add_zero, write, cells_write_below (Nat.lt_succ_self a), cells_writeByte_self]
      · rfl
      · intro hsame
        rw [lastErased_writeByte, hsame]
    | succ i =>
      have hi : i < data.length := Nat.lt_of_succ_lt_succ hi
      have haddress : a + 1 + i = a + (i + 1) := by omega
      rw [write, ← haddress, ih hi, background_writeByte (by omega)]
      rfl

/-- What was written reads back exactly when the cells had the bits for it. -/
theorem read_write_iff :
    (s.write n a data).read a data.length = data ↔
      ∀ i b, data[i]? = some b → s.background n a (a + i) &&& b = b := by
  constructor
  · intro h i b hb
    obtain ⟨hi, rfl⟩ := List.getElem?_eq_some_iff.mp hb
    have hread := congrArg (·[i]?) h
    simp only [read, List.getElem?_map, List.getElem?_range hi, Option.map_some, hb,
      Option.some.injEq] at hread
    rw [← cells_write hi, hread]
  · intro h
    refine List.ext_getElem (by simp [read]) fun i hi hi' => ?_
    simp only [read, List.getElem_map, List.getElem_range]
    rw [cells_write hi', h i _ (List.getElem?_eq_getElem hi')]

/-- From address 0 only the first sector can lack bits, and only if it was the one
erased last. -/
theorem read_write_zero_iff (hn : 0 < n) :
    (s.write n 0 data).read 0 data.length = data ↔
      s.lastErased ≠ some 0 ∨
        ∀ i b, data[i]? = some b → i < n → s.cells i &&& b = b := by
  rw [read_write_iff]
  have hones : ∀ b : UInt8, 255 &&& b = b := fun b => UInt8.neg_one_and
  by_cases hlast : s.lastErased = some 0
  · simp only [hlast, ne_eq, not_true_eq_false, false_or, background, Nat.zero_div, true_and,
      Nat.zero_add, Nat.div_eq_zero_iff, Nat.pos_iff_ne_zero.mp hn]
    refine forall_congr' fun i => forall_congr' fun b => forall_congr' fun _ => ?_
    by_cases hin : i < n
    · rw [if_pos hin]
      exact ⟨fun h _ => h, fun h => h hin⟩
    · rw [if_neg hin, hones]
      exact ⟨fun _ h => absurd h hin, fun _ => rfl⟩
  · simp only [hlast, ne_eq, not_false_eq_true, true_or, background, Nat.zero_div, false_and,
      if_false, hones, implies_true]

end Nor

end Library
end GarageDoor
