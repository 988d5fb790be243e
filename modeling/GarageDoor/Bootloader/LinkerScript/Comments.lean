/-
What stripping the comments leaves of a text.
-/
import GarageDoor.Bootloader.LinkerScript

namespace GarageDoor
namespace Bootloader

open Library

/-- A text and what is left of it without its comments. -/
inductive Strips : Chars → Chars → Prop where
  | nil : Strips [] []
  | char {c : Char} {s t : Chars} :
    (∀ r, c :: s ≠ '/' :: '*' :: r ∧ c :: s ≠ '/' :: '/' :: r) →
    Strips s t → Strips (c :: s) (c :: t)
  /-- `/*` to the first `*/`. -/
  | block {body s t : Chars} :
    ¬ ['*', '/'] <:+: body → Strips s t →
    Strips ('/' :: '*' :: (body ++ '*' :: '/' :: s)) t
  | blockAtEnd {body : Chars} : ¬ ['*', '/'] <:+: body → Strips ('/' :: '*' :: body) []
  /-- `//` to the end of its line, which stays. -/
  | line {body s t : Chars} :
    '\n' ∉ body → Strips s t → Strips ('/' :: '/' :: (body ++ '\n' :: s)) ('\n' :: t)
  | lineAtEnd {body : Chars} : '\n' ∉ body → Strips ('/' :: '/' :: body) []

section

variable {body s t : Chars} {c : Char}

theorem strip_block_cons (h : ∀ r, c :: s ≠ '*' :: '/' :: r) :
    strip .block (c :: s) = strip .block s := by
  rw [strip.eq_def]
  split <;> simp_all

theorem strip_line_cons (h : c ≠ '\n') : strip .line (c :: s) = strip .line s := by
  rw [strip.eq_def]
  split <;> simp_all

theorem strip_code_cons
    (h : ∀ r, c :: s ≠ '/' :: '*' :: r ∧ c :: s ≠ '/' :: '/' :: r) :
    strip .code (c :: s) = c :: strip .code s := by
  rw [strip.eq_def]
  split <;> simp_all

/-- The end of a block comment is the first there is. -/
theorem strip_block_append (h : ¬ ['*', '/'] <:+: body) (s : Chars) :
    strip .block (body ++ '*' :: '/' :: s) = strip .code s := by
  induction body with
  | nil => rfl
  | cons c body ih =>
    have hlater : ¬ ['*', '/'] <:+: body := fun hinside => h (hinside.trans ⟨[c], [], by simp⟩)
    rw [List.cons_append, strip_block_cons, ih hlater]
    intro r heq
    obtain ⟨rfl, htail⟩ := List.cons_eq_cons.mp heq
    cases body with
    | nil => exact absurd (List.cons.inj htail).1 (by decide)
    | cons d body =>
      obtain ⟨rfl, -⟩ := List.cons_eq_cons.mp htail
      exact h ⟨[], body, rfl⟩

theorem strip_block_nil (h : ¬ ['*', '/'] <:+: body) : strip .block body = [] := by
  induction body with
  | nil => rfl
  | cons c body ih =>
    rw [strip_block_cons, ih fun hinside => h (hinside.trans ⟨[c], [], by simp⟩)]
    intro r heq
    rw [heq] at h
    exact h ⟨[], r, rfl⟩

theorem strip_line_append (h : '\n' ∉ body) (s : Chars) :
    strip .line (body ++ '\n' :: s) = '\n' :: strip .code s := by
  induction body with
  | nil => rfl
  | cons c body ih =>
    rw [List.mem_cons, not_or] at h
    obtain ⟨hc, hbody⟩ := h
    rw [List.cons_append, strip_line_cons (Ne.symm hc), ih hbody]

theorem strip_line_nil (h : '\n' ∉ body) : strip .line body = [] := by
  induction body with
  | nil => rfl
  | cons c body ih =>
    rw [List.mem_cons, not_or] at h
    obtain ⟨hc, hbody⟩ := h
    rw [strip_line_cons (Ne.symm hc), ih hbody]

theorem Strips.strip_eq (h : Strips s t) : stripComments s = t := by
  unfold stripComments
  induction h with
  | nil => rfl
  | char hplain _ ih => rw [strip_code_cons hplain, ih]
  | block hbody _ ih => exact (strip_block_append hbody _).trans ih
  | blockAtEnd hbody => exact strip_block_nil hbody
  | line hbody _ ih => exact (strip_line_append hbody _).trans (congrArg _ ih)
  | lineAtEnd hbody => exact strip_line_nil hbody

/-- A comment that is not ended, or its end and what follows. -/
theorem exists_block (s : Chars) : ¬ ['*', '/'] <:+: s ∨
    ∃ body rest, s = body ++ '*' :: '/' :: rest ∧ ¬ ['*', '/'] <:+: body := by
  induction s with
  | nil => exact .inl (by simp)
  | cons c s ih =>
    by_cases hhere : ['*', '/'] <+: c :: s
    · obtain ⟨rest, hrest⟩ := hhere
      exact .inr ⟨[], rest, hrest.symm, by simp⟩
    · rcases ih with hs | ⟨body, rest, rfl, hbody⟩
      · exact .inl fun hinside => (List.infix_cons_iff.mp hinside).elim hhere hs
      · refine .inr ⟨c :: body, rest, rfl, fun hinside => ?_⟩
        rcases List.infix_cons_iff.mp hinside with hfront | hlater
        · exact hhere (hfront.trans (List.prefix_append (c :: body) _))
        · exact hbody hlater

theorem exists_line (s : Chars) :
    '\n' ∉ s ∨ ∃ body rest, s = body ++ '\n' :: rest ∧ '\n' ∉ body := by
  by_cases h : '\n' ∈ s
  · obtain ⟨body, rest, rfl, hbody⟩ := List.eq_append_cons_of_mem h
    exact .inr ⟨body, rest, rfl, hbody⟩
  · exact .inl h

theorem strips_stripComments (s : Chars) : Strips s (stripComments s) := by
  suffices h : ∃ t, Strips s t by
    obtain ⟨t, ht⟩ := h
    exact ht.strip_eq ▸ ht
  induction hn : s.length using Nat.strong_induction_on generalizing s with
  | _ n ih =>
    match s with
    | [] => exact ⟨_, .nil⟩
    | c :: s =>
      by_cases hblock : ∃ r, c :: s = '/' :: '*' :: r
      · obtain ⟨r, hr⟩ := hblock
        rw [hr] at hn ⊢
        rcases exists_block r with hbody | ⟨body, rest, rfl, hbody⟩
        · exact ⟨_, .blockAtEnd hbody⟩
        · simp only [List.length_cons, List.length_append] at hn
          obtain ⟨t, ht⟩ := ih rest.length (by omega) rest rfl
          exact ⟨_, .block hbody ht⟩
      · by_cases hline : ∃ r, c :: s = '/' :: '/' :: r
        · obtain ⟨r, hr⟩ := hline
          rw [hr] at hn ⊢
          rcases exists_line r with hbody | ⟨body, rest, rfl, hbody⟩
          · exact ⟨_, .lineAtEnd hbody⟩
          · simp only [List.length_cons, List.length_append] at hn
            obtain ⟨t, ht⟩ := ih rest.length (by omega) rest rfl
            exact ⟨_, .line hbody ht⟩
        · obtain ⟨t, ht⟩ := ih s.length (by rw [← hn]; simp) s rfl
          exact ⟨_, .char (fun r => ⟨fun h => hblock ⟨r, h⟩, fun h => hline ⟨r, h⟩⟩) ht⟩

theorem stripComments_eq_iff : stripComments s = t ↔ Strips s t :=
  ⟨fun h => h ▸ strips_stripComments s, Strips.strip_eq⟩

end

end Bootloader
end GarageDoor
