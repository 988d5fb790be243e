/-
JSON texts.

The grammar of RFC 8259 over bytes, with one relaxation: the integer part of a
number is any non-empty digit string.  A derivation gives the value with its strings
as they stand in the text, escapes not decoded.  `Strict` takes the relaxation back.
-/
import GarageDoor.Library.Numeral

namespace GarageDoor
namespace Library

open Ascii

inductive Json where
  | string (raw : Text)
  | number (raw : Text)
  | literal (raw : Text)
  | array (items : List Json)
  | object (members : List (Text × Json))

namespace Json

def IsWs (b : UInt8) : Prop := b = 32 ∨ b = 9 ∨ b = 10 ∨ b = 13

def Ws (w : Text) : Prop := ∀ b ∈ w, IsWs b

/-- The bytes that may follow a backslash, `u` apart. -/
def simpleEscapes : List UInt8 := [34, 92, 47, 98, 102, 110, 114, 116]

/-- Plain bytes and escapes; no quote, backslash or control byte stands alone. -/
inductive Characters : Text → Prop where
  | nil : Characters []
  | plain {b rest} (hcontrol : 32 ≤ b) (hquote : b ≠ 34) (hbackslash : b ≠ 92)
      (h : Characters rest) : Characters (b :: rest)
  | escape {b rest} (hb : b ∈ simpleEscapes) (h : Characters rest) :
      Characters (92 :: b :: rest)
  | unicode {ds rest} (hlength : ds.length = 4) (hhex : ∀ d ∈ ds, isHexDigit d = true)
      (h : Characters rest) : Characters (92 :: 117 :: (ds ++ rest))

theorem Characters.append {s t : Text} (hs : Characters s) (ht : Characters t) :
    Characters (s ++ t) := by
  induction hs with
  | nil => exact ht
  | plain hcontrol hquote hbackslash _ ih => exact .plain hcontrol hquote hbackslash ih
  | escape hb _ ih => exact .escape hb ih
  | unicode hlength hhex _ ih =>
    rw [List.cons_append, List.cons_append, List.append_assoc]
    exact .unicode hlength hhex ih

theorem characters_plain {s : Text} (h : ∀ b ∈ s, 32 ≤ b ∧ b ≠ 34 ∧ b ≠ 92) : Characters s := by
  induction s with
  | nil => exact .nil
  | cons b s ih =>
    obtain ⟨hcontrol, hquote, hbackslash⟩ := h b List.mem_cons_self
    exact .plain hcontrol hquote hbackslash (ih fun c hc => h c (List.mem_cons_of_mem b hc))

/-- What stands between the quotes of a string. -/
structure StringBody (raw : Text) : Prop where
  characters : Characters raw
  utf8 : ValidUtf8 raw

def quoted (raw : Text) : Text := 34 :: (raw ++ [34])

def Digits (ds : Text) : Prop := ds ≠ [] ∧ ∀ d ∈ ds, isDigit d = true

def Fraction (f : Text) : Prop := f = [] ∨ ∃ ds, Digits ds ∧ f = 46 :: ds

def Exponent (e : Text) : Prop :=
  e = [] ∨ ∃ mark sign ds, (mark = 101 ∨ mark = 69) ∧ (sign = [] ∨ sign = [43] ∨ sign = [45]) ∧
    Digits ds ∧ e = mark :: (sign ++ ds)

def NumberText (n : Text) : Prop :=
  ∃ sign ds f e, (sign = [] ∨ sign = [45]) ∧ Digits ds ∧ Fraction f ∧ Exponent e ∧
    n = sign ++ ds ++ f ++ e

def literals : List Text := [text "true", text "false", text "null"]

/-- What a piece of text can stand for. -/
inductive Node where
  | value (j : Json)
  | item (j : Json)
  | items (js : List Json)
  | member (key : Text) (j : Json)
  | members (ms : List (Text × Json))

/-- An item is a value with whitespace around it, a member a key with an item. -/
inductive Derives : Node → Text → Prop where
  | string {raw} (h : StringBody raw) : Derives (.value (.string raw)) (quoted raw)
  | number {n} (h : NumberText n) : Derives (.value (.number n)) n
  | literal {s} (h : s ∈ literals) : Derives (.value (.literal s)) s
  | emptyArray {w} (hw : Ws w) : Derives (.value (.array [])) (91 :: (w ++ [93]))
  | array {js t} (h : Derives (.items js) t) : Derives (.value (.array js)) (91 :: (t ++ [93]))
  | emptyObject {w} (hw : Ws w) : Derives (.value (.object [])) (123 :: (w ++ [125]))
  | object {ms t} (h : Derives (.members ms) t) :
      Derives (.value (.object ms)) (123 :: (t ++ [125]))
  | item {w j t w'} (hw : Ws w) (h : Derives (.value j) t) (hw' : Ws w') :
      Derives (.item j) (w ++ t ++ w')
  | lastItem {j t} (h : Derives (.item j) t) : Derives (.items [j]) t
  | nextItem {j t js ts} (h : Derives (.item j) t) (hs : Derives (.items js) ts) :
      Derives (.items (j :: js)) (t ++ 44 :: ts)
  | member {w key w' j t} (hw : Ws w) (hkey : StringBody key) (hw' : Ws w')
      (h : Derives (.item j) t) : Derives (.member key j) (w ++ quoted key ++ w' ++ 58 :: t)
  | lastMember {key j t} (h : Derives (.member key j) t) : Derives (.members [(key, j)]) t
  | nextMember {key j t ms ts} (h : Derives (.member key j) t) (hs : Derives (.members ms) ts) :
      Derives (.members ((key, j) :: ms)) (t ++ 44 :: ts)

/-! ## Strict values -/

/-- A number whose integer part has no leading zero. -/
def StrictNumber (n : Text) : Prop :=
  ∃ sign ds f e, (sign = [] ∨ sign = [45]) ∧ Digits ds ∧ Canonical ds ∧ Fraction f ∧
    Exponent e ∧ n = sign ++ ds ++ f ++ e

/-- A value all of whose numbers are strict, as RFC 8259 has it. -/
inductive Strict : Json → Prop where
  | string {raw} : Strict (.string raw)
  | number {n} (h : StrictNumber n) : Strict (.number n)
  | literal {s} : Strict (.literal s)
  | array {js} (h : ∀ j ∈ js, Strict j) : Strict (.array js)
  | object {ms} (h : ∀ m ∈ ms, Strict m.2) : Strict (.object ms)

theorem digits_numeral (v : Nat) : Digits (numeral v) := ⟨numeral_ne_nil v, isDigit_numeral v⟩

theorem numberText_numeral (v : Nat) : NumberText (numeral v) :=
  ⟨[], numeral v, [], [], .inl rfl, digits_numeral v, .inl rfl, .inl rfl, by simp⟩

theorem strictNumber_numeral (v : Nat) : StrictNumber (numeral v) :=
  ⟨[], numeral v, [], [], .inl rfl, digits_numeral v, numeral_canonical v, .inl rfl, .inl rfl,
    by simp⟩

/-! ## Members -/

theorem member_item {key t : Text} {j : Json} (h : Derives (.member key j) t) :
    ∃ u, Derives (.item j) u := by
  cases h with
  | member hw hkey hw' h => exact ⟨_, h⟩

theorem members_item {ms : List (Text × Json)} : ∀ {t : Text}, Derives (.members ms) t →
    ∀ m ∈ ms, ∃ u, Derives (.item m.2) u := by
  induction ms with
  | nil => exact fun _ m hm => nomatch hm
  | cons m ms ih =>
    intro t h m' hm'
    cases h with
    | lastMember h =>
      rw [List.mem_singleton.mp hm']
      exact member_item h
    | nextMember h hs =>
      rcases List.mem_cons.mp hm' with rfl | hm'
      · exact member_item h
      · exact ih hs m' hm'

theorem object_members {ms : List (Text × Json)} {t : Text} (h : Derives (.item (.object ms)) t) :
    ∀ m ∈ ms, ∃ u, Derives (.item m.2) u := by
  cases h with
  | item hw h hw' =>
    cases h with
    | emptyObject hw => exact fun m hm => nomatch hm
    | object h => exact members_item h

theorem string_body {raw t : Text} (h : Derives (.item (.string raw)) t) : StringBody raw := by
  cases h with
  | item hw h hw' =>
    cases h with
    | string h => exact h

theorem item_of_value {j : Json} {t : Text} (h : Derives (.value j) t) : Derives (.item j) t := by
  have hitem := @Derives.item [] j t [] (by simp [Ws]) h (by simp [Ws])
  rwa [List.nil_append, List.append_nil] at hitem

theorem member_of_item {key t : Text} {j : Json} (hkey : StringBody key)
    (h : Derives (.item j) t) : Derives (.member key j) (quoted key ++ 58 :: t) := by
  have hmember := @Derives.member [] key [] j t (by simp [Ws]) hkey (by simp [Ws]) h
  rwa [List.nil_append, List.append_nil] at hmember

/-! ## How a node begins -/

section

variable {t : Text}

theorem number_head {n : Text} (h : NumberText n) :
    ∃ b n', n = b :: n' ∧ (b = 45 ∨ isDigit b = true) := by
  obtain ⟨sign, ds, f, e, hsign, ⟨hne, hds⟩, -, -, rfl⟩ := h
  rcases hsign with rfl | rfl
  · cases ds with
    | nil => exact absurd rfl hne
    | cons d ds => exact ⟨d, ds ++ f ++ e, by simp, .inr (hds d List.mem_cons_self)⟩
  · exact ⟨45, ds ++ f ++ e, by simp, .inl rfl⟩

/-- The byte a value of this kind begins with. -/
def Opens (b : UInt8) : Json → Prop
  | .string _ => b = 34
  | .number _ => b = 45 ∨ isDigit b = true
  | .literal _ => b = 116 ∨ b = 102 ∨ b = 110
  | .array _ => b = 91
  | .object _ => b = 123

theorem literal_head {l : Text} (h : l ∈ literals) :
    ∃ b l', l = b :: l' ∧ (b = 116 ∨ b = 102 ∨ b = 110) := by
  simp only [literals, List.mem_cons, List.not_mem_nil, or_false] at h
  rcases h with rfl | rfl | rfl <;> exact ⟨_, _, rfl, by decide⟩

theorem value_opens {j : Json} (h : Derives (.value j) t) : ∃ b t', t = b :: t' ∧ Opens b j := by
  cases h with
  | string h => exact ⟨34, _, rfl, rfl⟩
  | number h => exact number_head h
  | literal h => exact literal_head h
  | emptyArray hw => exact ⟨91, _, rfl, rfl⟩
  | array h => exact ⟨91, _, rfl, rfl⟩
  | emptyObject hw => exact ⟨123, _, rfl, rfl⟩
  | object h => exact ⟨123, _, rfl, rfl⟩

/-- What opens a value neither is whitespace nor closes anything. -/
theorem Opens.ne {b : UInt8} {j : Json} (h : Opens b j) : ¬ IsWs b ∧ b ≠ 93 ∧ b ≠ 125 := by
  have hne : ∀ c, c ∈ ([32, 9, 10, 13, 93, 125] : List UInt8) → b ≠ c := by
    intro c hc hbc
    subst hbc
    simp only [List.mem_cons, List.not_mem_nil, or_false] at hc
    cases j <;> rcases hc with rfl | rfl | rfl | rfl | rfl | rfl <;> simp [Opens, isDigit] at h
  refine ⟨?_, hne 93 (by simp), hne 125 (by simp)⟩
  rintro (rfl | rfl | rfl | rfl) <;> exact hne _ (by simp) rfl

theorem value_head {j : Json} (h : Derives (.value j) t) :
    ∃ b t', t = b :: t' ∧ ¬ IsWs b ∧ b ≠ 93 ∧ b ≠ 125 := by
  obtain ⟨b, t', rfl, hb⟩ := value_opens h
  exact ⟨b, t', rfl, hb.ne⟩

theorem item_head {j : Json} (h : Derives (.item j) t) :
    ∃ w b t', t = w ++ b :: t' ∧ Ws w ∧ ¬ IsWs b ∧ b ≠ 93 := by
  cases h with
  | @item w _ u w' hw h hw' =>
    obtain ⟨b, t', rfl, hws, hclose, -⟩ := value_head h
    exact ⟨w, b, t' ++ w', by simp, hw, hws, hclose⟩

theorem items_head {js : List Json} (h : Derives (.items js) t) :
    ∃ w b t', t = w ++ b :: t' ∧ Ws w ∧ ¬ IsWs b ∧ b ≠ 93 := by
  cases h with
  | lastItem h => exact item_head h
  | nextItem h hs =>
    obtain ⟨w, b, t', rfl, hrest⟩ := item_head h
    exact ⟨w, b, _, by rw [List.append_assoc]; rfl, hrest⟩

theorem member_head {key : Text} {j : Json} (h : Derives (.member key j) t) :
    ∃ w t', t = w ++ 34 :: t' ∧ Ws w := by
  cases h with
  | @member w _ w' _ u hw hkey hw' h =>
    exact ⟨w, key ++ [34] ++ w' ++ 58 :: u, by simp [quoted], hw⟩

theorem members_head {ms : List (Text × Json)} (h : Derives (.members ms) t) :
    ∃ w t', t = w ++ 34 :: t' ∧ Ws w := by
  cases h with
  | lastMember h => exact member_head h
  | nextMember h hs =>
    obtain ⟨w, t', rfl, hw⟩ := member_head h
    exact ⟨w, _, by rw [List.append_assoc]; rfl, hw⟩

end

end Json

end Library
end GarageDoor
