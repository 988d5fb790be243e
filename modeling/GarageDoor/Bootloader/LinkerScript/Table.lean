/-
The table that a memory script stands for, and the one the build reads.
-/
import GarageDoor.Bootloader.LinkerScript.Comments
import GarageDoor.Bootloader.LinkerScript.Expression

namespace GarageDoor
namespace Bootloader

open Library

/-- A line with a region. -/
structure Entry where
  name : Chars
  origin : Expr
  length : Expr
  /-- Before and after the name, and before the words and the equals signs. -/
  (indent afterName beforeOrigin afterOrigin beforeLength afterLength : Chars)
  named : name ≠ []
  trimmed : Chars.trim name = name
  plain : ∀ c ∈ name, c ≠ ':' ∧ c ≠ '}' ∧ c ≠ '\n' ∧ c ≠ '\r'
  blank : ∀ s ∈ [indent, afterName, beforeOrigin, afterOrigin, beforeLength, afterLength], Blank s

namespace Entry

def lengthText (e : Entry) : Chars :=
  e.beforeLength ++ ("LENGTH".toList ++ (e.afterLength ++ '=' :: e.length.text))

def rest (e : Entry) : Chars :=
  e.beforeOrigin ++ ("ORIGIN".toList ++ (e.afterOrigin ++ '=' ::
    (e.origin.text ++ ',' :: e.lengthText)))

def text (e : Entry) : Chars := (e.indent ++ (e.name ++ e.afterName)) ++ ':' :: e.rest

def Fits (e : Entry) : Prop := e.origin.Fits ∧ e.length.Fits

instance (e : Entry) : Decidable e.Fits := inferInstanceAs (Decidable (_ ∧ _))

def region (e : Entry) : Region :=
  { origin := UInt32.ofInt e.origin.value, length := UInt32.ofInt e.length.value }

end Entry

inductive Line where
  /-- Carriage returns may end the lines. -/
  | region (e : Entry) (crlf : Bool)
  | other (s : Chars) (plain : ∀ c ∈ s, c ≠ ':' ∧ c ≠ '}' ∧ c ≠ '\n')

def Line.text : Line → Chars
  | .region e crlf => e.text ++ (if crlf then ['\r'] else [])
  | .other s _ => s

def Line.entry : Line → Option Entry
  | .region e _ => some e
  | .other _ _ => none

/-- A script with a `MEMORY` block, without its comments. -/
structure Script where
  (prologue gap : Chars)
  lines : List Line
  last : Chars
  epilogue : Chars
  first : ¬ "MEMORY".toList <:+: prologue ++ "MEMORY".toList.dropLast
  opens : '{' ∉ gap
  plain : ∀ c ∈ last, c ≠ ':' ∧ c ≠ '}' ∧ c ≠ '\n'

namespace Script

def body (s : Script) : Chars := s.lines.flatMap (fun line => line.text ++ ['\n']) ++ s.last

def text (s : Script) : Chars :=
  s.prologue ++ ("MEMORY".toList ++ (s.gap ++ '{' :: (s.body ++ '}' :: s.epilogue)))

def entries (s : Script) : List Entry := s.lines.filterMap Line.entry

def insert (table : Table) (e : Entry) : Table := AList.insert e.name e.region table

/-- Later lines replace earlier ones of the same name. -/
def table (s : Script) : Table := s.entries.foldl insert ∅

end Script

/-! ## Characters of an entry -/

section

variable {c : Char} {e : Entry} {mode : Overflow} {t t' : Table} {text : Chars} {s : Script}

theorem Expr.mem_text {e : Expr} (h : c ∈ e.text) :
    isBlank c = true ∨ isTermChar c = true ∨ c = '+' ∨ c = '-' := by
  rw [Expr.text, List.mem_append, List.mem_append] at h
  rcases h with h | h | h
  · split at h
    · exact .inr (.inr (.inr (List.mem_singleton.mp h)))
    · cases h
  · exact (Operand.mem_text h).imp_right .inl
  · obtain ⟨t, -, ht⟩ := List.mem_flatMap.mp h
    rcases List.mem_cons.mp ht with rfl | ht
    · rw [Summand.signText]
      split <;> simp
    · exact (Operand.mem_text ht).imp_right .inl

/-- The characters between the fields of an entry. -/
def fixedChars : Chars := ['+', '-', ':', '=', ','] ++ ("ORIGIN".toList ++ "LENGTH".toList)

theorem Entry.mem_text (h : c ∈ e.text) :
    isBlank c = true ∨ isTermChar c = true ∨ c ∈ e.name ∨ c ∈ fixedChars := by
  have hexpr : ∀ x : Expr, c ∈ x.text →
      isBlank c = true ∨ isTermChar c = true ∨ c ∈ e.name ∨ c ∈ fixedChars := by
    intro x hx
    rcases Expr.mem_text hx with h | h | rfl | rfl
    · exact .inl h
    · exact .inr (.inl h)
    · exact .inr (.inr (.inr (by decide)))
    · exact .inr (.inr (.inr (by decide)))
  have hblank : ∀ ws ∈ [e.indent, e.afterName, e.beforeOrigin, e.afterOrigin, e.beforeLength,
      e.afterLength], c ∈ ws →
      isBlank c = true ∨ isTermChar c = true ∨ c ∈ e.name ∨ c ∈ fixedChars :=
    fun ws hws hc => .inl (e.blank ws hws c hc)
  have hfixed : c ∈ fixedChars →
      isBlank c = true ∨ isTermChar c = true ∨ c ∈ e.name ∨ c ∈ fixedChars :=
    fun hc => .inr (.inr (.inr hc))
  simp only [Entry.text, Entry.rest, Entry.lengthText, List.mem_append, List.mem_cons] at h
  rcases h with (h | h | h) | rfl | h | h | h | rfl | h | rfl | h | h | h | rfl | h
  · exact hblank _ (by simp) h
  · exact .inr (.inr (.inl h))
  · exact hblank _ (by simp) h
  · exact hfixed (by decide)
  · exact hblank _ (by simp) h
  · exact hfixed (List.mem_append_right _ (List.mem_append_left _ h))
  · exact hblank _ (by simp) h
  · exact hfixed (by decide)
  · exact hexpr _ h
  · exact hfixed (by decide)
  · exact hblank _ (by simp) h
  · exact hfixed (List.mem_append_right _ (List.mem_append_right _ h))
  · exact hblank _ (by simp) h
  · exact hfixed (by decide)
  · exact hexpr _ h

end

end Bootloader
end GarageDoor
