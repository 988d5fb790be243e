/-
Iterators that are pulled one element at a time.

An iterator may be pulled again after it ran dry.  The ones here then stay dry, so that
they are described by the list of the elements they have left.
-/
import Mathlib.Data.List.Basic

namespace GarageDoor
namespace Library

structure Iterator (σ α : Type) where
  next : σ → Option α × σ

namespace Iterator

variable {σ τ α : Type}

/-- The elements an iterator has left: each pull takes the first of them. -/
structure Listed (I : Iterator σ α) where
  rest : σ → List α
  next_fst : ∀ s, (I.next s).1 = (rest s).head?
  next_snd : ∀ s, rest (I.next s).2 = (rest s).tail

/-- The elements of a slice. -/
def slice : Iterator (List α) α where
  next
    | [] => (none, [])
    | x :: xs => (some x, xs)

/-- A single element. -/
def once : Iterator (Option α) α where
  next x := (x, none)

/-- The elements of one iterator and then those of another; the first one is dropped once
it ran dry. -/
def chain (I : Iterator σ α) (J : Iterator τ α) : Iterator (Option σ × τ) α where
  next
    | (some s, t) =>
      match I.next s with
      | (some x, s) => (some x, some s, t)
      | (none, _) =>
        let (y, t) := J.next t
        (y, none, t)
    | (none, t) =>
      let (y, t) := J.next t
      (y, none, t)

def sliceListed : (slice : Iterator (List α) α).Listed where
  rest xs := xs
  next_fst xs := by cases xs <;> rfl
  next_snd xs := by cases xs <;> rfl

def onceListed : (once : Iterator (Option α) α).Listed where
  rest x := x.toList
  next_fst x := by cases x <;> rfl
  next_snd x := by cases x <;> rfl

def Listed.chain {I : Iterator σ α} {J : Iterator τ α} (A : I.Listed) (B : J.Listed) :
    (I.chain J).Listed where
  rest
    | (some s, t) => A.rest s ++ B.rest t
    | (none, t) => B.rest t
  next_fst := by
    rintro ⟨s | s, t⟩
    · exact B.next_fst t
    · have hfst := A.next_fst s
      rcases hnext : I.next s with ⟨x | x, s'⟩
      · rw [hnext, eq_comm, List.head?_eq_none_iff] at hfst
        simp only [Iterator.chain, hnext, hfst, List.nil_append]
        exact B.next_fst t
      · rw [hnext] at hfst
        simp only [Iterator.chain, hnext]
        rw [List.head?_append, ← hfst, Option.some_or]
  next_snd := by
    rintro ⟨s | s, t⟩
    · exact B.next_snd t
    · have hfst := A.next_fst s
      have hsnd := A.next_snd s
      rcases hnext : I.next s with ⟨x | x, s'⟩
      · rw [hnext, eq_comm, List.head?_eq_none_iff] at hfst
        simp only [Iterator.chain, hnext, hfst, List.nil_append]
        exact B.next_snd t
      · rw [hnext, eq_comm] at hfst
        rw [hnext] at hsnd
        obtain ⟨tail, htail⟩ := List.head?_eq_some_iff.mp hfst
        simp only [Iterator.chain, hnext, hsnd, htail, List.tail_cons, List.cons_append]

end Iterator

end Library
end GarageDoor
