/-
Streaming digests.

A streaming digest is fed a message in pieces.  Its law says that the pieces do
not matter: the result is the digest of their concatenation.
-/
import Mathlib.Data.List.Basic

namespace GarageDoor
namespace Library

structure StreamingDigest (η δ : Type) where
  hash : List UInt8 → δ
  new : η
  update : η → List UInt8 → η
  finalize : η → δ
  finalize_chunks : ∀ chunks : List (List UInt8),
    finalize (chunks.foldl update new) = hash chunks.flatten

namespace StreamingDigest

/-- Any digest function is streamed by keeping the message. -/
def ofFunction {δ : Type} (hash : List UInt8 → δ) : StreamingDigest (List UInt8) δ where
  hash := hash
  new := []
  update := (· ++ ·)
  finalize := hash
  finalize_chunks chunks := by
    have hfold : ∀ (cs : List (List UInt8)) (m : List UInt8),
        cs.foldl (· ++ ·) m = m ++ cs.flatten := by
      intro cs
      induction cs with
      | nil => intro m; simp
      | cons c cs ih => intro m; simp [ih]
    rw [hfold, List.nil_append]

/-- A digest by its values on some messages, with one value for all the others. -/
def ofTable {δ : Type} (table : List (List UInt8 × δ)) (other : δ) :
    StreamingDigest (List UInt8) δ :=
  .ofFunction fun m => (table.lookup m).getD other

/-- The state has absorbed the message, in some pieces. -/
def Absorbed {η δ : Type} (d : StreamingDigest η δ) (s : η) (message : List UInt8) : Prop :=
  ∃ chunks : List (List UInt8), s = chunks.foldl d.update d.new ∧ chunks.flatten = message

variable {η δ : Type} {d : StreamingDigest η δ}

theorem absorbed_new : d.Absorbed d.new [] := ⟨[], rfl, rfl⟩

theorem Absorbed.update {s : η} {message : List UInt8} (h : d.Absorbed s message)
    (piece : List UInt8) : d.Absorbed (d.update s piece) (message ++ piece) := by
  obtain ⟨chunks, rfl, rfl⟩ := h
  exact ⟨chunks ++ [piece], by simp, by simp⟩

theorem Absorbed.finalize {s : η} {message : List UInt8} (h : d.Absorbed s message) :
    d.finalize s = d.hash message := by
  obtain ⟨chunks, rfl, rfl⟩ := h
  exact d.finalize_chunks chunks

end StreamingDigest

end Library
end GarageDoor
