/-
Fixed-size buffers written from the front.
-/
import Mathlib.Data.List.Basic

namespace GarageDoor
namespace Library

variable {α : Type} {n : Nat}

/-- `xs` copied over the front of the buffer; what does not fit is dropped. -/
def overwrite (buf : Vector α n) (xs : List α) : Vector α n :=
  Vector.ofFn fun i => xs.getD i buf[i]

/-- Behind what was copied, the buffer is as before. -/
theorem overwrite_toList {buf : Vector α n} {xs : List α} (h : xs.length ≤ n) :
    (overwrite buf xs).toList = xs ++ buf.toList.drop xs.length := by
  apply List.ext_getElem
  · rw [Vector.length_toList, List.length_append, List.length_drop, Vector.length_toList]
    omega
  · intro i hi hi'
    by_cases hx : i < xs.length
    · simp [overwrite, hx]
    · have hback : xs.length + (i - xs.length) = i := by omega
      simp [overwrite, hx, List.getElem_append_right (Nat.le_of_not_lt hx), hback]

/-- The front of the buffer reads back what was copied there. -/
theorem take_overwrite {buf : Vector α n} {xs : List α} (h : xs.length ≤ n) :
    (overwrite buf xs).toList.take xs.length = xs := by
  rw [overwrite_toList h, List.take_left]

theorem overwrite_take (buf : Vector α n) (k : Nat) : overwrite buf (buf.toList.take k) = buf := by
  ext i hi
  by_cases hk : i < k
  · simp [overwrite, List.getElem?_take, hk]
  · simp [overwrite, List.getElem?_take, hk]

theorem overwrite_nil (buf : Vector α n) : overwrite buf [] = buf := by
  ext i hi
  simp [overwrite]

/-- `xs` copied over the bytes from `start` to `stop`, where there are as many of them. -/
def copySlice (buf : Vector α n) (start stop : Nat) (xs : List α) : Option (Vector α n) :=
  if start ≤ stop ∧ stop ≤ n ∧ xs.length = stop - start then
    some (Vector.ofFn fun i => if start ≤ i then xs.getD (i - start) buf[i] else buf[i])
  else
    none

def setAt (buf : Vector α n) (i : Nat) (x : α) : Option (Vector α n) :=
  if h : i < n then some (buf.set i x h) else none

/-- What is copied behind `xs` goes on where `xs` ended. -/
theorem copySlice_overwrite {buf : Vector α n} {xs ys : List α}
    (h : xs.length + ys.length ≤ n) :
    copySlice (overwrite buf xs) xs.length (xs.length + ys.length) ys =
      some (overwrite buf (xs ++ ys)) := by
  rw [copySlice, if_pos ⟨Nat.le_add_right _ _, h, by omega⟩, Option.some.injEq]
  ext i hi
  by_cases hx : xs.length ≤ i
  · simp [overwrite, List.getElem?_append_right hx, hx]
  · simp [overwrite, List.getElem?_append_left (Nat.lt_of_not_le hx), hx]

theorem setAt_overwrite {buf : Vector α n} {xs : List α} {x : α} (h : xs.length < n) :
    setAt (overwrite buf xs) xs.length x = some (overwrite buf (xs ++ [x])) := by
  rw [setAt, dif_pos h, Option.some.injEq]
  ext i hi
  by_cases hx : xs.length = i
  · subst hx
    simp [overwrite]
  · by_cases hlt : i < xs.length
    · simp [overwrite, hx, List.getElem?_append_left hlt]
    · have hout : (xs ++ [x])[i]? = none := by
        apply List.getElem?_eq_none
        simp
        omega
      simp [overwrite, hx, hout, List.getElem?_eq_none (Nat.le_of_not_lt hlt)]

end Library
end GarageDoor
