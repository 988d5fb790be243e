/-
Whatever the scanner accepts is JSON.
-/
import GarageDoor.Core.Mqtt.Lexical

namespace GarageDoor
namespace Mqtt

open Library Ascii Json

def valueOf : Json → Value
  | .string raw => .string raw
  | _ => .other

/-- Some of the text is a node of value `v`, and so it is with whitespace after it. -/
def Front (node : Json → Node) (rest : List UInt8) (v : Value) (after : List UInt8) : Prop :=
  ∃ j t, (∀ w, Ws w → Derives (node j) (t ++ w)) ∧ v = valueOf j ∧
    rest = t ++ after ∧ t ≠ []

/-- The text begins with the members of an object, up to its closing brace. -/
def MembersFront (rest after : List UInt8) : Prop :=
  ∃ ms t, Derives (.members ms) t ∧ rest = t ++ 125 :: after

def ItemsFront (rest after : List UInt8) : Prop :=
  ∃ js t, Derives (.items js) t ∧ rest = t ++ 93 :: after

theorem Front.length_lt {node : Json → Node} {rest after : List UInt8} {v : Value}
    (h : Front node rest v after) : after.length < rest.length := by
  obtain ⟨j, t, -, -, rfl, hne⟩ := h
  have := List.length_pos_iff.mpr hne
  rw [List.length_append]
  omega

section

variable {α : Type} {bytes rest : List UInt8} {s : Scanner}

/-- Skipped whitespace is skipped again to no effect. -/
theorem parseValue_skipWs (h : At bytes s rest) (fuel : Nat) :
    Scanner.parseValue fuel s.skipWs = Scanner.parseValue fuel s := by
  cases fuel with
  | zero => rfl
  | succ fuel => rw [Scanner.parseValue, Scanner.parseValue, h.skipWs_skipWs]

/-- The first byte of a value decides what it is. -/
theorem parseValue_succ {b : UInt8} (h : At bytes s.skipWs (b :: rest)) (fuel : Nat) :
    Scanner.parseValue (fuel + 1) s =
      if b = 34 then s.skipWs.parseStringRaw.bind fun raw s => .ok (.string raw) s
      else if b = 123 then
        (s.skipWs.skipNested 125 () (Scanner.skipMembers fuel)).bind fun _ s => .ok .other s
      else if b = 91 then
        (s.skipWs.skipNested 93 () (Scanner.skipItems fuel)).bind fun _ s => .ok .other s
      else if b = 116 ∨ b = 102 ∨ b = 110 then
        s.skipWs.skipLiteral.bind fun _ s => .ok .other s
      else if b = 45 ∨ isDigit b = true then
        s.skipWs.skipNumber.bind fun _ s => .ok .other s
      else .error .malformed := by
  rw [Scanner.parseValue]
  simp only [h.peek, List.head?_cons, Option.some.injEq, Option.any_some]

theorem member_skipWs (h : At bytes s rest) (parse : Scanner → Scanned Value) :
    s.skipWs.member parse = s.member parse := by
  rw [Scanner.member, Scanner.member, h.skipWs_skipWs]

theorem skipItems_skipWs (h : At bytes s rest) (fuel : Nat) :
    Scanner.skipItems fuel s.skipWs = Scanner.skipItems fuel s := by
  cases fuel with
  | zero => rfl
  | succ fuel => rw [Scanner.skipItems, Scanner.skipItems, parseValue_skipWs h]

theorem skipMembers_skipWs (h : At bytes s rest) (fuel : Nat) :
    Scanner.skipMembers fuel s.skipWs = Scanner.skipMembers fuel s := by
  cases fuel with
  | zero => rfl
  | succ fuel => rw [Scanner.skipMembers, Scanner.skipMembers, member_skipWs h]

theorem member_scans {parse : Scanner → Scanned Value} (h : At bytes s rest)
    (hparse : ∀ s' rest', At bytes s' rest' → rest'.length < rest.length →
      Scans bytes (Front .item rest') (parse s')) :
    Scans bytes (fun kv after => Front (.member kv.1) rest kv.2 after) (s.member parse) := by
  have hws := h.skipWs
  have hsplit := List.takeWhile_append_dropWhile (p := isWs) (l := rest)
  unfold Scanner.member
  simp only [hws.peek]
  generalize rest.dropWhile isWs = rest₁ at hws hsplit ⊢
  cases rest₁ with
  | nil => exact .inl rfl
  | cons b rest₁ =>
    by_cases hquote : b = 34
    · subst hquote
      rw [List.head?_cons, if_neg (not_not.mpr rfl)]
      refine (parseStringRaw_scans hws).bind fun key s₂ rest₂ hat₂ hkey => ?_
      obtain ⟨hkey, hrest₂⟩ := hkey
      have hws₂ := hat₂.skipWs
      have hsplit₂ := List.takeWhile_append_dropWhile (p := isWs) (l := rest₂)
      simp only [hws₂.peek]
      generalize rest₂.dropWhile isWs = rest₃ at hws₂ hsplit₂ ⊢
      cases rest₃ with
      | nil => exact .inl rfl
      | cons c rest₃ =>
        by_cases hcolon : c = 58
        · subst hcolon
          rw [List.head?_cons, if_neg (not_not.mpr rfl)]
          have htext : rest = rest.takeWhile isWs ++ quoted key ++ rest₂.takeWhile isWs ++
              58 :: rest₃ := by
            rw [List.append_assoc, hsplit₂, List.append_assoc, ← hrest₂, hsplit]
          have hlength := congrArg List.length htext
          simp only [List.length_append, List.length_cons] at hlength
          refine (hparse _ _ hws₂.advance (by omega)).bind fun v s₄ rest₄ hat₄ hv => ?_
          obtain ⟨j, t, hderives, rfl, rfl, -⟩ := hv
          refine ⟨rest₄, hat₄, j,
            rest.takeWhile isWs ++ quoted key ++ rest₂.takeWhile isWs ++ 58 :: t, ?_, rfl, ?_, ?_⟩
          · intro w hw
            have := Derives.member (ws_takeWhile rest) hkey (ws_takeWhile rest₂) (hderives w hw)
            simpa [List.append_assoc] using this
          · exact htext.trans (by simp [List.append_assoc])
          · simp
        · rw [List.head?_cons, if_pos (by simpa using hcolon)]
          exact .inl rfl
    · rw [List.head?_cons, if_pos (by simpa using hquote)]
      exact .inl rfl

theorem separator_scans {close : UInt8} {more : Scanner → Scanned α} {result : α}
    {Q : List UInt8 → α → List UInt8 → Prop} (h : At bytes s rest)
    (hmore : ∀ s' rest', At bytes s' rest' → rest'.length < rest.length →
      Scans bytes (Q rest') (more s')) :
    Scans bytes (fun a after => ∃ w, Ws w ∧
      ((rest = w ++ close :: after ∧ a = result) ∨
        ∃ rest', rest = w ++ 44 :: rest' ∧ Q rest' a after))
      (s.separator close more result) := by
  have hws := h.skipWs
  have hsplit := List.takeWhile_append_dropWhile (p := isWs) (l := rest)
  unfold Scanner.separator
  simp only [hws.peek]
  generalize rest.dropWhile isWs = rest₁ at hws hsplit ⊢
  cases rest₁ with
  | nil => exact .inl rfl
  | cons b rest₁ =>
    have hlength := congrArg List.length hsplit
    simp only [List.length_append, List.length_cons] at hlength
    rw [List.head?_cons]
    by_cases hcomma : b = 44
    · subst hcomma
      rw [if_pos rfl]
      refine (hmore _ _ hws.advance (by omega)).mono fun a after ha => ?_
      exact ⟨_, ws_takeWhile rest, .inr ⟨rest₁, hsplit.symm, ha⟩⟩
    rw [if_neg (by simpa using hcomma)]
    by_cases hclose : b = close
    · subst hclose
      rw [if_pos rfl]
      exact ⟨rest₁, hws.advance, _, ws_takeWhile rest, .inl ⟨hsplit.symm, rfl⟩⟩
    · rw [if_neg (by simpa using hclose)]
      exact .inl rfl

theorem skipNested_scans {b close : UInt8} {empty : α} {loop : Scanner → Scanned α}
    {Q : α → List UInt8 → Prop} (h : At bytes s (b :: rest))
    (hidempotent : loop s.advance.skipWs = loop s.advance)
    (hloop : Scans bytes Q (loop s.advance)) :
    Scans bytes (fun a after => (a = empty ∧ ∃ w, Ws w ∧ rest = w ++ close :: after) ∨ Q a after)
      (s.skipNested close empty loop) := by
  have hws := h.advance.skipWs
  have hsplit := List.takeWhile_append_dropWhile (p := isWs) (l := rest)
  unfold Scanner.skipNested
  simp only [hws.peek, hidempotent]
  by_cases hclose : (rest.dropWhile isWs).head? = some close
  · rw [if_pos hclose]
    generalize rest.dropWhile isWs = rest₁ at hws hsplit hclose
    cases rest₁ with
    | nil => cases hclose
    | cons c rest₁ =>
      cases hclose
      exact ⟨rest₁, hws.advance, .inl ⟨rfl, _, ws_takeWhile rest, hsplit.symm⟩⟩
  · rw [if_neg hclose]
    exact hloop.mono fun _ _ => .inr

theorem literal_ne_nil {l : Text} (h : l ∈ literals) : l ≠ [] := by
  simp only [literals, List.mem_cons, List.not_mem_nil, or_false] at h
  rcases h with rfl | rfl | rfl <;> decide

theorem number_ne_nil {n : Text} (h : NumberText n) : n ≠ [] := by
  obtain ⟨sign, ds, f, e, -, hds, -, -, rfl⟩ := h
  simp [hds.1]

/-- A value at the scanner, with the whitespace before it already skipped. -/
theorem value_front {w t after : List UInt8} {j : Json} (hw : Ws w)
    (h : Derives (.value j) t) (hne : t ≠ []) :
    Front .item (w ++ t ++ after) (valueOf j) after := by
  refine ⟨j, w ++ t, fun w' hw' => .item hw h hw', rfl, rfl, ?_⟩
  simp [hne]

/-- A scan that leaves a value behind. -/
theorem Scans.value {w rest₁ : List UInt8} {P : α → List UInt8 → Prop} {x : Scanned α}
    (hw : Ws w) {v : α → Value} (hx : Scans bytes P x)
    (hP : ∀ a after, P a after →
      ∃ j t, Derives (.value j) t ∧ v a = valueOf j ∧ rest₁ = t ++ after ∧ t ≠ []) :
    Scans bytes (Front .item (w ++ rest₁)) (x.bind fun a s => .ok (v a) s) := by
  refine hx.bind fun a s after hat ha => ?_
  obtain ⟨j, t, hderives, hv, rfl, hne⟩ := hP a after ha
  rw [hv, ← List.append_assoc]
  exact ⟨after, hat, value_front hw hderives hne⟩

/-- A value, given what the two loops do further on. -/
theorem parseValue_scans {fuel : Nat} (h : At bytes s rest)
    (hmembers : ∀ s' rest', At bytes s' rest' → rest'.length < rest.length →
      Scans bytes (fun _ after => MembersFront rest' after) (Scanner.skipMembers fuel s'))
    (hitems : ∀ s' rest', At bytes s' rest' → rest'.length < rest.length →
      Scans bytes (fun _ after => ItemsFront rest' after) (Scanner.skipItems fuel s')) :
    Scans bytes (Front .item rest) (Scanner.parseValue (fuel + 1) s) := by
  have hws := h.skipWs
  have hw := ws_takeWhile rest
  have hsplit := List.takeWhile_append_dropWhile (p := isWs) (l := rest)
  have hlength := congrArg List.length hsplit
  rw [List.length_append] at hlength
  generalize rest.dropWhile isWs = rest₁ at hws hsplit hlength
  generalize rest.takeWhile isWs = w at hw hsplit hlength
  cases rest₁ with
  | nil =>
    rw [Scanner.parseValue]
    simp only [hws.peek]
    exact .inl rfl
  | cons b rest₁ =>
    rw [List.length_cons] at hlength
    have hlt : rest₁.length < rest.length := by omega
    rw [parseValue_succ hws, ← hsplit]
    by_cases hquote : b = 34
    · subst hquote
      rw [if_pos rfl]
      refine (parseStringRaw_scans hws).value hw (v := Value.string) fun raw after hraw => ?_
      exact ⟨.string raw, quoted raw, .string hraw.1, rfl, hraw.2, by simp [quoted]⟩
    rw [if_neg hquote]
    by_cases hbrace : b = 123
    · subst hbrace
      rw [if_pos rfl]
      have hloop := hmembers _ _ hws.advance hlt
      refine (skipNested_scans hws (skipMembers_skipWs hws.advance fuel) hloop).value hw
        (v := fun _ => .other) fun _ after hafter => ?_
      rcases hafter with ⟨-, w', hw', rfl⟩ | ⟨ms, t, hms, rfl⟩
      · exact ⟨_, _, .emptyObject hw', rfl, by simp, by simp⟩
      · exact ⟨_, _, .object hms, rfl, by simp, by simp⟩
    rw [if_neg hbrace]
    by_cases hbracket : b = 91
    · subst hbracket
      rw [if_pos rfl]
      have hloop := hitems _ _ hws.advance hlt
      refine (skipNested_scans hws (skipItems_skipWs hws.advance fuel) hloop).value hw
        (v := fun _ => .other) fun _ after hafter => ?_
      rcases hafter with ⟨-, w', hw', rfl⟩ | ⟨js, t, hjs, rfl⟩
      · exact ⟨_, _, .emptyArray hw', rfl, by simp, by simp⟩
      · exact ⟨_, _, .array hjs, rfl, by simp, by simp⟩
    rw [if_neg hbracket]
    by_cases hliteral : b = 116 ∨ b = 102 ∨ b = 110
    · rw [if_pos hliteral]
      refine (skipLiteral_scans hws).value hw (v := fun _ => .other) fun _ after hafter => ?_
      obtain ⟨l, hl, htext⟩ := hafter
      exact ⟨.literal l, l, .literal hl, rfl, htext, literal_ne_nil hl⟩
    rw [if_neg hliteral]
    by_cases hnumber : b = 45 ∨ isDigit b = true
    · rw [if_pos hnumber]
      refine (skipNumber_scans hws).value hw (v := fun _ => .other) fun _ after hafter => ?_
      obtain ⟨n, hn, htext⟩ := hafter
      exact ⟨.number n, n, .number hn, rfl, htext, number_ne_nil hn⟩
    · rw [if_neg hnumber]
      exact .inl rfl

/-- With enough fuel the recursive functions stop at the end of what they are for, or
with an error. -/
theorem parse_scans (bytes : List UInt8) (fuel : Nat) :
    (∀ s rest, At bytes s rest → 2 * rest.length + 1 ≤ fuel →
      Scans bytes (Front .item rest) (Scanner.parseValue fuel s)) ∧
    (∀ s rest, At bytes s rest → 2 * rest.length + 2 ≤ fuel →
      Scans bytes (fun _ after => MembersFront rest after) (Scanner.skipMembers fuel s)) ∧
    (∀ s rest, At bytes s rest → 2 * rest.length + 2 ≤ fuel →
      Scans bytes (fun _ after => ItemsFront rest after) (Scanner.skipItems fuel s)) := by
  induction fuel with
  | zero =>
    refine ⟨?_, ?_, ?_⟩ <;>
      intro s rest _ hfuel <;>
      omega
  | succ fuel ih =>
    obtain ⟨ihValue, ihMembers, ihItems⟩ := ih
    refine ⟨fun s rest hat hfuel => ?_, fun s rest hat hfuel => ?_, fun s rest hat hfuel => ?_⟩
    · exact parseValue_scans hat
        (fun s' rest' hat' hlt => ihMembers s' rest' hat' (by omega))
        (fun s' rest' hat' hlt => ihItems s' rest' hat' (by omega))
    · rw [Scanner.skipMembers]
      refine (member_scans hat fun s' rest' hat' hlt => ihValue s' rest' hat' (by omega)).bind
        fun kv s₁ rest₁ hat₁ hkv => ?_
      have hlt := hkv.length_lt
      refine (separator_scans (Q := fun rest' _ after => MembersFront rest' after) hat₁
        fun s' rest' hat' hlt' => ihMembers s' rest' hat' (by omega)).mono fun _ after hafter => ?_
      obtain ⟨j, t, hderives, -, rfl, -⟩ := hkv
      obtain ⟨w, hw, ⟨rfl, -⟩ | ⟨rest', rfl, ms, ts, hms, rfl⟩⟩ := hafter
      · exact ⟨[(kv.1, j)], t ++ w, .lastMember (hderives w hw), by simp⟩
      · exact ⟨(kv.1, j) :: ms, (t ++ w) ++ 44 :: ts, .nextMember (hderives w hw) hms, by simp⟩
    · rw [Scanner.skipItems]
      refine (ihValue s rest hat (by omega)).bind fun v s₁ rest₁ hat₁ hv => ?_
      have hlt := hv.length_lt
      refine (separator_scans (Q := fun rest' _ after => ItemsFront rest' after) hat₁
        fun s' rest' hat' hlt' => ihItems s' rest' hat' (by omega)).mono fun _ after hafter => ?_
      obtain ⟨j, t, hderives, -, rfl, -⟩ := hv
      obtain ⟨w, hw, ⟨rfl, -⟩ | ⟨rest', rfl, js, ts, hjs, rfl⟩⟩ := hafter
      · exact ⟨[j], t ++ w, .lastItem (hderives w hw), by simp⟩
      · exact ⟨j :: js, (t ++ w) ++ 44 :: ts, .nextItem (hderives w hw) hjs, by simp⟩

end

end Mqtt
end GarageDoor
