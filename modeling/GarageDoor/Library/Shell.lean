/-
A command line as a POSIX shell reads it.

Words are put together from plain bytes, escaped bytes and quoted text; `&&` joins commands
and `>` redirects one.  A line with any other construct has no reading here.
-/
import GarageDoor.Library.Ascii

namespace GarageDoor
namespace Library
namespace Shell

open Ascii (Text text)

inductive Token where
  | word (w : Text)
  | andIf
  | great
  deriving DecidableEq

/-- Where the shell is in a line. -/
inductive Mode where
  | blank
  /-- In a word. -/
  | word (w : Text)
  | quoted (w : Text)
  | escaped (w : Text)
  | ampersand
  | great

/-- The bytes that stand for themselves in every place. -/
def isPlain (b : UInt8) : Bool :=
  Ascii.isDigit b || 97 ≤ b && b ≤ 122 || 65 ≤ b && b ≤ 90 || (text "-_./,:@+").contains b

def isBlank (b : UInt8) : Bool := b == 32 || b == 9

/-- A word is ended by a blank, an operator or the end of the line. -/
def tokens : Mode → Text → Option (List Token)
  | .blank, [] | .great, [] => some []
  | .word w, [] => some [.word w]
  | .quoted _, [] | .escaped _, [] | .ampersand, [] => none
  | .blank, b :: s =>
    if isBlank b then tokens .blank s
    else if b = 39 then tokens (.quoted []) s
    else if b = 92 then tokens (.escaped []) s
    else if b = 38 then tokens .ampersand s
    else if b = 62 then (Token.great :: ·) <$> tokens .great s
    else if isPlain b then tokens (.word [b]) s
    else none
  | .word w, b :: s =>
    if isBlank b then (Token.word w :: ·) <$> tokens .blank s
    else if b = 39 then tokens (.quoted w) s
    else if b = 92 then tokens (.escaped w) s
    else if b = 38 then (Token.word w :: ·) <$> tokens .ampersand s
    else if isPlain b then tokens (.word (w ++ [b])) s
    else none
  | .quoted w, b :: s => if b = 39 then tokens (.word w) s else tokens (.quoted (w ++ [b])) s
  | .escaped w, b :: s => if b = 10 then none else tokens (.word (w ++ [b])) s
  | .ampersand, b :: s => if b = 38 then (Token.andIf :: ·) <$> tokens .blank s else none
  | .great, b :: s => if isBlank b then tokens .blank s else none

structure Command where
  words : List Text
  output : Option Text
  deriving DecidableEq

def Command.empty : Command := { words := [], output := none }

/-- The words that begin a compound command. -/
def reserved : List Text :=
  [text "case", text "do", text "done", text "elif", text "else", text "esac", text "fi",
    text "for", text "if", text "in", text "then", text "until", text "while"]

def Command.complete (c : Command) : Option Command :=
  match c.words with
  | [] => none
  | name :: _ => if name ∈ reserved then none else some c

/-- The commands that `&&` joins, with `c` read so far. -/
def commands : Command → List Token → Option (List Command)
  | c, [] => (fun c => [c]) <$> c.complete
  | c, .word w :: ts => commands { c with words := c.words ++ [w] } ts
  | c, .great :: .word w :: ts =>
    if c.output = none then commands { c with output := some w } ts else none
  | _, .great :: _ => none
  | c, .andIf :: ts => do
    let c ← c.complete
    let cs ← commands .empty ts
    pure (c :: cs)

def read (line : Text) : Option (List Command) := (tokens .blank line).bind (commands .empty)

/-- The commands are run up to the first that fails. -/
def runAll {σ : Type} (exec : Command → σ → σ × Bool) : List Command → σ → σ × Bool
  | [], s => (s, true)
  | c :: cs, s =>
    match exec c s with
    | (s, true) => runAll exec cs s
    | (s, false) => (s, false)

/-! ## Quoting -/

/-- A quote ends the quoting and comes escaped, and the quoting goes on. -/
def quoteByte (b : UInt8) : Text := if b = 39 then [39, 92, 39, 39] else [b]

/-- A text in single quotes. -/
def quote (t : Text) : Text := 39 :: (t.flatMap quoteByte ++ [39])

section

variable {t w s : Text} {b : UInt8}

theorem special_of_plain (hb : isPlain b = true) :
    isBlank b = false ∧ b ≠ 39 ∧ b ≠ 92 ∧ b ≠ 38 ∧ b ≠ 62 := by
  refine ⟨Bool.eq_false_iff.mpr fun hblank => ?_, ?_, ?_, ?_, ?_⟩
  · rw [isBlank, Bool.or_eq_true, beq_iff_eq, beq_iff_eq] at hblank
    rcases hblank with rfl | rfl <;> exact absurd hb (by decide)
  all_goals
    rintro rfl
    exact absurd hb (by decide)

theorem tokens_plain (h : ∀ b ∈ t, isPlain b = true) (w s : Text) :
    tokens (.word w) (t ++ s) = tokens (.word (w ++ t)) s := by
  induction t generalizing w with
  | nil => rw [List.nil_append, List.append_nil]
  | cons b t ih =>
    obtain ⟨hb, ht⟩ := List.forall_mem_cons.mp h
    obtain ⟨hblank, hquote, hescape, hamp, -⟩ := special_of_plain hb
    rw [List.cons_append, tokens, if_neg (by simp [hblank]), if_neg hquote, if_neg hescape,
      if_neg hamp, if_pos hb, ih ht, List.append_assoc, List.singleton_append]

theorem tokens_quoted (t w s : Text) :
    tokens (.quoted w) (t.flatMap quoteByte ++ 39 :: s) = tokens (.word (w ++ t)) s := by
  induction t generalizing w with
  | nil => rw [List.append_nil]; rfl
  | cons b t ih =>
    rw [List.flatMap_cons, List.append_assoc]
    by_cases hb : b = 39
    · subst hb
      show tokens (.quoted (w ++ [39])) (t.flatMap quoteByte ++ 39 :: s) = _
      rw [ih, List.append_assoc, List.singleton_append]
    · rw [quoteByte, if_neg hb, List.singleton_append, tokens, if_neg hb, ih, List.append_assoc,
        List.singleton_append]

/-- A quoted text is a word, whatever is in it. -/
theorem tokens_quote (t s : Text) : tokens .blank (quote t ++ s) = tokens (.word t) s := by
  have hquoted := tokens_quoted t [] s
  rw [List.nil_append] at hquoted
  rw [← hquoted, quote, List.cons_append, List.append_assoc]
  rfl

end

/-! ## Lines put together from words -/

def Plain (t : Text) : Prop := t ≠ [] ∧ ∀ b ∈ t, isPlain b = true

instance (t : Text) : Decidable (Plain t) :=
  @instDecidableAnd _ _ inferInstance (List.decidableBAll _ t)

/-- A part of a line; a plain one is a word of its own. -/
inductive Item where
  | plain (t : Text) (readable : Plain t)
  | quoted (t : Text)
  | andIf
  | great

def Item.text : Item → Text
  | .plain t _ => t
  | .quoted t => quote t
  | .andIf => [38, 38]
  | .great => [62]

def Item.token : Item → Token
  | .plain t _ | .quoted t => .word t
  | .andIf => .andIf
  | .great => .great

def line : List Item → Text
  | [] => []
  | [i] => i.text
  | i :: j :: items => i.text ++ 32 :: line (j :: items)

section

theorem tokens_word_blank (w s : Text) :
    tokens (.word w) (32 :: s) = (Token.word w :: ·) <$> tokens .blank s := rfl

/-- A plain part starts a word. -/
theorem tokens_start {t : Text} (hne : t ≠ []) (h : ∀ b ∈ t, isPlain b = true) (s : Text) :
    tokens .blank (t ++ s) = tokens (.word t) s := by
  obtain ⟨b, t, rfl⟩ := List.exists_cons_of_ne_nil hne
  obtain ⟨hb, ht⟩ := List.forall_mem_cons.mp h
  have hstart : tokens .blank (b :: (t ++ s)) = tokens (.word [b]) (t ++ s) := by
    obtain ⟨hblank, hquote, hescape, hamp, hgreat⟩ := special_of_plain hb
    rw [tokens, if_neg (by simp [hblank]), if_neg hquote, if_neg hescape, if_neg hamp,
      if_neg hgreat, if_pos hb]
  rw [List.cons_append, hstart, tokens_plain ht, List.singleton_append]

theorem tokens_item (i : Item) (s : Text) :
    tokens .blank (i.text ++ 32 :: s) = (i.token :: ·) <$> tokens .blank s := by
  cases i with
  | plain t h => exact (tokens_start h.1 h.2 _).trans (tokens_word_blank t s)
  | quoted t => exact (tokens_quote t _).trans (tokens_word_blank t s)
  | andIf => rfl
  | great => rfl

theorem tokens_last (i : Item) : tokens .blank i.text = some [i.token] := by
  cases i with
  | plain t h =>
    have hstart := tokens_start h.1 h.2 []
    rw [List.append_nil] at hstart
    exact hstart
  | quoted t =>
    have hquote := tokens_quote t []
    rw [List.append_nil] at hquote
    exact hquote
  | andIf => rfl
  | great => rfl

/-- The tokens are the items, whatever the quoted ones hold. -/
theorem tokens_line (items : List Item) :
    tokens .blank (line items) = some (items.map Item.token) := by
  induction items with
  | nil => rfl
  | cons i items ih =>
    cases items with
    | nil => exact tokens_last i
    | cons j items =>
      rw [line, tokens_item, ih]
      rfl

theorem read_line (items : List Item) :
    read (line items) = commands .empty (items.map Item.token) := by
  rw [read, tokens_line, Option.bind_some]

end

end Shell
end Library
end GarageDoor
