/-
The value of an expression.

Expressions are sums of numbers in the notations of the linker.  What the build computes in
64 bits and cuts to 32 is the value modulo 2^32, also where the sum wraps around.
-/
import GarageDoor.Bootloader.LinkerScript
import Mathlib.Algebra.Ring.Int.Defs

namespace GarageDoor
namespace Bootloader

open Library

/-- White space within a line. -/
def isBlank (c : Char) : Bool := Chars.isWhitespace c && c ≠ '\n' && c ≠ '\r'

def Blank (s : Chars) : Prop := ∀ c ∈ s, isBlank c = true

instance (s : Chars) : Decidable (Blank s) := List.decidableBAll _ s

inductive Base where
  | decimal
  | hex
  | hexUpper
  deriving DecidableEq

def Base.radix : Base → Nat
  | .decimal => 10
  | .hex | .hexUpper => 16

def Base.mark : Base → Chars
  | .decimal => []
  | .hex => ['0', 'x']
  | .hexUpper => ['0', 'X']

structure Numeral where
  base : Base
  digits : Chars
  value : Nat
  reads : Chars.digits base.radix digits = some value
  small : value < 2 ^ 63

def Numeral.text (n : Numeral) : Chars := n.base.mark ++ n.digits

inductive Scale where
  | one
  | kilo (upper : Bool)
  | mega (upper : Bool)
  deriving DecidableEq

def Scale.text : Scale → Chars
  | .one => []
  | .kilo upper => [if upper then 'K' else 'k']
  | .mega upper => [if upper then 'M' else 'm']

def Scale.factor : Scale → Int
  | .one => 1
  | .kilo _ => 1024
  | .mega _ => 1024 * 1024

/-- A number of the sum between white space. -/
structure Operand where
  before : Chars
  number : Numeral
  scale : Scale
  after : Chars
  blankBefore : Blank before
  blankAfter : Blank after

def Operand.core (o : Operand) : Chars := o.number.text ++ o.scale.text

def Operand.text (o : Operand) : Chars := o.before ++ (o.core ++ o.after)

def Operand.value (o : Operand) : Int := o.number.value * o.scale.factor

structure Summand where
  negative : Bool
  operand : Operand

def Summand.sign (t : Summand) : Int := if t.negative then -1 else 1

def Summand.value (t : Summand) : Int := t.sign * t.operand.value

def Summand.signText (t : Summand) : Char := if t.negative then '-' else '+'

/-- A sum; a plus sign before the first operand is not written. -/
structure Expr where
  first : Summand
  rest : List Summand

def Expr.summands (e : Expr) : List Summand := e.first :: e.rest

def Expr.value (e : Expr) : Int := (e.summands.map Summand.value).sum

def restText (ts : List Summand) : Chars := ts.flatMap fun t => t.signText :: t.operand.text

def Expr.text (e : Expr) : Chars :=
  (if e.first.negative then ['-'] else []) ++ (e.first.operand.text ++ restText e.rest)

def InI64 (x : Int) : Prop := -2 ^ 63 ≤ x ∧ x < 2 ^ 63

instance (x : Int) : Decidable (InI64 x) := inferInstanceAs (Decidable (_ ∧ _))

/-- Nothing overflows on the way from `total`. -/
def FitsFrom : Int → List Summand → Prop
  | _, [] => True
  | total, t :: ts =>
    InI64 t.operand.value ∧ InI64 (total + t.value) ∧ FitsFrom (total + t.value) ts

instance decidableFitsFrom : ∀ total ts, Decidable (FitsFrom total ts)
  | _, [] => inferInstanceAs (Decidable True)
  | total, t :: ts =>
    have := decidableFitsFrom (total + t.value) ts
    inferInstanceAs (Decidable (_ ∧ _ ∧ _))

def Expr.Fits (e : Expr) : Prop := FitsFrom 0 e.summands

instance (e : Expr) : Decidable e.Fits := decidableFitsFrom 0 e.summands

/-! ## The characters of a term -/

def isTermChar (c : Char) : Bool :=
  48 ≤ c.toNat && c.toNat ≤ 57 || 65 ≤ c.toNat && c.toNat ≤ 70 ||
    97 ≤ c.toNat && c.toNat ≤ 102 || [75, 77, 88, 107, 109, 120].contains c.toNat

section

variable {c : Char} {s : Chars} {mode : Overflow}

/-- A digit of a number, and the numbers it may be a digit of. -/
theorem digit_ranges {radix : Nat} (hradix : radix ≤ 16) (h : Chars.digitValue radix c ≠ none) :
    48 ≤ c.toNat ∧ c.toNat ≤ 57 ∨
      10 < radix ∧ (97 ≤ c.toNat ∧ c.toNat ≤ 102 ∨ 65 ≤ c.toNat ∧ c.toNat ≤ 70) := by
  obtain ⟨v, hv⟩ := Option.ne_none_iff_exists'.mp h
  rw [Chars.digitValue, Option.filter_eq_some_iff, decide_eq_true_eq] at hv
  obtain ⟨hv, hlt⟩ := hv
  split at hv
  · next hdigit => exact .inl ⟨hdigit.1, hdigit.2⟩
  · split at hv
    · next hlower =>
      cases hv
      have hlow : 97 ≤ c.toNat := hlower.1
      exact .inr (by omega)
    · split at hv
      · next hupper =>
        cases hv
        have hlow : 65 ≤ c.toNat := hupper.1
        exact .inr (by omega)
      · cases hv

theorem Base.radix_le (b : Base) : b.radix ≤ 16 := by cases b <;> decide

theorem Numeral.digit (n : Numeral) : n.digits ≠ [] ∧
    ∀ c ∈ n.digits, 48 ≤ c.toNat ∧ c.toNat ≤ 57 ∨
      10 < n.base.radix ∧ (97 ≤ c.toNat ∧ c.toNat ≤ 102 ∨ 65 ≤ c.toNat ∧ c.toNat ≤ 70) := by
  obtain ⟨hne, hdigits⟩ := Chars.digits_eq_some n.reads
  exact ⟨hne, fun c hc => digit_ranges n.base.radix_le (hdigits c hc)⟩

theorem Operand.core_termChar (o : Operand) : ∀ c ∈ o.core, isTermChar c = true := by
  have hmark : ∀ c ∈ o.number.base.mark, isTermChar c = true := by
    cases o.number.base <;> exact List.all_eq_true.mp rfl
  have hscale : ∀ c ∈ o.scale.text, isTermChar c = true := by
    cases o.scale with
    | one => nofun
    | kilo upper => cases upper <;> exact List.all_eq_true.mp rfl
    | mega upper => cases upper <;> exact List.all_eq_true.mp rfl
  have hdigits : ∀ c ∈ o.number.digits, isTermChar c = true := by
    intro c hc
    have hrange := o.number.digit.2 c hc
    simp only [isTermChar, Bool.or_eq_true, Bool.and_eq_true, decide_eq_true_eq]
    omega
  intro c hc
  rw [core, Numeral.text, List.append_assoc, List.mem_append, List.mem_append] at hc
  exact hc.elim (hmark c) fun hc => hc.elim (hdigits c) (hscale c)

theorem Operand.mem_text {o : Operand} (h : c ∈ o.text) :
    isBlank c = true ∨ isTermChar c = true := by
  rw [text, List.mem_append, List.mem_append] at h
  rcases h with h | h | h
  · exact .inl (o.blankBefore c h)
  · exact .inr (o.core_termChar c h)
  · exact .inl (o.blankAfter c h)

theorem evalChar_push (h : ∀ c ∈ s, c ≠ '+' ∧ c ≠ '-') (total sign : Int) (term : Chars) :
    s.foldlM (evalChar mode) { total, sign, term } = .ok { total, sign, term := term ++ s } := by
  induction s generalizing term with
  | nil => rw [List.append_nil]; rfl
  | cons c s ih =>
    obtain ⟨hc, hs⟩ := List.forall_mem_cons.mp h
    rw [List.foldlM_cons, evalChar, if_neg (not_or.mpr hc)]
    show s.foldlM (evalChar mode) { total, sign, term := term ++ [c] } = _
    rw [ih hs, List.append_assoc, List.singleton_append]

theorem Operand.push (o : Operand) (total sign : Int) :
    o.text.foldlM (evalChar mode) { total, sign, term := [] } =
      .ok { total, sign, term := o.text } := by
  refine evalChar_push (fun c hc => ?_) total sign []
  have hmem := Operand.mem_text hc
  constructor <;> rintro rfl <;> exact absurd hmem (by decide)

end

end Bootloader
end GarageDoor
