/-
The lines of a growing text.

A separator ends a line; what follows the last separator is the open line.  The
lemmas say what one more element does to both.
-/
import Mathlib.Data.List.Induction

namespace GarageDoor
namespace Library

variable {α : Type} [BEq α]

/-- The lines of `xs` that `a` ends. -/
def endedLines (a : α) (xs : List α) : List (List α) := (xs.splitOn a).dropLast

/-- What follows the last `a` in `xs`. -/
def openLine (a : α) (xs : List α) : List α := (xs.splitOn a).getLast (List.splitOn_ne_nil a xs)

@[simp] theorem endedLines_nil (a : α) : endedLines a [] = [] := rfl

@[simp] theorem openLine_nil (a : α) : openLine a [] = [] := rfl

theorem endedLines_append_openLine (a : α) (xs : List α) :
    endedLines a xs ++ [openLine a xs] = xs.splitOn a :=
  List.dropLast_concat_getLast _

variable [LawfulBEq α]

@[simp] theorem endedLines_snoc_sep (a : α) (xs : List α) :
    endedLines a (xs ++ [a]) = endedLines a xs ++ [openLine a xs] := by
  rw [endedLines_append_openLine, endedLines, List.splitOn_append_cons_self, List.splitOn_nil,
    List.dropLast_concat]

@[simp] theorem openLine_snoc_sep (a : α) (xs : List α) : openLine a (xs ++ [a]) = [] := by
  simp only [openLine, List.splitOn_append_cons_self, List.splitOn_nil, List.getLast_concat]

theorem splitOn_snoc {a b : α} (hb : b ≠ a) (xs : List α) :
    (xs ++ [b]).splitOn a = endedLines a xs ++ [openLine a xs ++ [b]] := by
  have hsplit := endedLines_append_openLine a xs
  generalize endedLines a xs = ls at hsplit
  generalize openLine a xs = l at hsplit
  induction xs generalizing ls l with
  | nil =>
    obtain ⟨rfl, hl⟩ := List.append_inj' (show ls ++ [l] = [] ++ [_] from hsplit) rfl
    rw [List.singleton_inj] at hl
    subst hl
    exact List.splitOn_eq_singleton (by simpa using hb.symm)
  | cons x xs ih =>
    rw [List.cons_append, List.splitOn_cons_eq_if_modifyHead]
    rw [List.splitOn_cons_eq_if_modifyHead] at hsplit
    by_cases hx : x == a
    · rw [if_pos hx] at hsplit ⊢
      cases ls with
      | nil => simp at hsplit
      | cons l₁ ls =>
        obtain ⟨rfl, htail⟩ := List.cons_eq_cons.mp hsplit
        rw [ih ls l htail]
        rfl
    · rw [if_neg hx] at hsplit ⊢
      rw [ih _ _ (endedLines_append_openLine a xs)]
      rw [← endedLines_append_openLine] at hsplit
      cases hls : endedLines a xs with
      | nil =>
        rw [hls] at hsplit
        obtain ⟨rfl, hl⟩ := List.append_inj' (show ls ++ [l] = [] ++ [_] from hsplit) rfl
        rw [List.singleton_inj] at hl
        simp [hl]
      | cons l₁ ls₁ =>
        rw [hls] at hsplit
        have : ls ++ [l] = (x :: l₁) :: ls₁ ++ [openLine a xs] := hsplit
        obtain ⟨rfl, hl⟩ := List.append_inj' this rfl
        rw [List.singleton_inj] at hl
        simp [hl]

theorem endedLines_snoc {a b : α} (hb : b ≠ a) (xs : List α) :
    endedLines a (xs ++ [b]) = endedLines a xs := by
  rw [endedLines, splitOn_snoc hb, List.dropLast_concat]

theorem openLine_snoc {a b : α} (hb : b ≠ a) (xs : List α) :
    openLine a (xs ++ [b]) = openLine a xs ++ [b] := by
  simp only [openLine, splitOn_snoc hb, List.getLast_concat]

theorem length_openLine_le (a : α) (xs : List α) : (openLine a xs).length ≤ xs.length := by
  induction xs using List.reverseRecOn with
  | nil => simp
  | append_singleton xs b ih =>
    by_cases hb : b = a
    · subst hb
      simp
    · rw [openLine_snoc hb, List.length_append, List.length_append]
      simpa using ih

end Library
end GarageDoor
