/-
All of JSON is accepted, and read to its end.
-/
import GarageDoor.Core.Mqtt.Sound

namespace GarageDoor
namespace Mqtt

open Library Ascii Json

/-- The byte after an item or a member. -/
def Ender (c : UInt8) : Prop := c = 44 ∨ c = 93 ∨ c = 125

theorem dense_cons {b : UInt8} (hb : isWs b = false) (rest : List UInt8) : Dense (b :: rest) := by
  intro c hc
  cases hc
  exact hb

/-- What may follow a value does not belong to a number. -/
theorem stops_of_ender {w : Text} {c : UInt8} (hw : Ws w) (hc : Ender c) (rest : List UInt8) :
    Stops (w ++ c :: rest) := by
  cases w with
  | nil => rcases hc with rfl | rfl | rfl <;> exact ⟨by intro b hb; cases hb; rfl, by simp⟩
  | cons b w =>
    rcases hw b List.mem_cons_self with rfl | rfl | rfl | rfl <;>
      exact ⟨by intro b hb; cases hb; rfl, by simp⟩

/-- What the scanner does with a node it finds ahead. -/
def Reads (bytes : List UInt8) : Node → Text → Prop
  | .value j, t => ∀ s w rest fuel, At bytes s (w ++ (t ++ rest)) → Ws w → Stops rest →
      2 * (t ++ rest).length + 1 ≤ fuel →
      ∃ s', Scanner.parseValue fuel s = .ok (valueOf j) s' ∧ At bytes s' rest
  | .item j, t => ∀ s c rest fuel, At bytes s (t ++ c :: rest) → Ender c →
      2 * (t ++ c :: rest).length + 1 ≤ fuel →
      ∃ s' w, Scanner.parseValue fuel s = .ok (valueOf j) s' ∧ Ws w ∧
        At bytes s' (w ++ c :: rest)
  | .items _, t => ∀ s rest fuel, At bytes s (t ++ 93 :: rest) →
      2 * (t ++ 93 :: rest).length + 2 ≤ fuel →
      ∃ s', Scanner.skipItems fuel s = .ok () s' ∧ At bytes s' rest
  | .member key j, t => ∀ s c rest fuel, At bytes s (t ++ c :: rest) → Ender c →
      2 * (t ++ c :: rest).length + 1 ≤ fuel →
      ∃ s' w, s.member (Scanner.parseValue fuel) = .ok (key, valueOf j) s' ∧ Ws w ∧
        At bytes s' (w ++ c :: rest)
  | .members _, t => ∀ s rest fuel, At bytes s (t ++ 125 :: rest) →
      2 * (t ++ 125 :: rest).length + 2 ≤ fuel →
      ∃ s', Scanner.skipMembers fuel s = .ok () s' ∧ At bytes s' rest

section

variable {α : Type} {bytes rest w t : List UInt8} {s : Scanner}

theorem separator_more (close : UInt8) (more : Scanner → Scanned α) (result : α)
    (h : At bytes s (w ++ 44 :: rest)) (hw : Ws w) :
    ∃ s', s.separator close more result = more s' ∧ At bytes s' rest := by
  have hat := h.skipWs_to hw (dense_cons (by decide) _)
  refine ⟨s.skipWs.advance, ?_, hat.advance⟩
  simp only [Scanner.separator, hat.peek, List.head?_cons, if_true]

theorem separator_close {close : UInt8} (more : Scanner → Scanned α) (result : α)
    (h : At bytes s (w ++ close :: rest)) (hw : Ws w) (hclose : close ≠ 44)
    (hws : isWs close = false) :
    ∃ s', s.separator close more result = .ok result s' ∧ At bytes s' rest := by
  have hat := h.skipWs_to hw (dense_cons hws _)
  refine ⟨s.skipWs.advance, ?_, hat.advance⟩
  simp only [Scanner.separator, hat.peek, List.head?_cons, Option.some.injEq, hclose, if_false,
    if_true]

theorem skipNested_empty {b close : UInt8} (empty : α) (loop : Scanner → Scanned α)
    (h : At bytes s (b :: (w ++ close :: rest))) (hw : Ws w) (hws : isWs close = false) :
    ∃ s', s.skipNested close empty loop = .ok empty s' ∧ At bytes s' rest := by
  have hat := h.advance.skipWs_to hw (dense_cons hws _)
  refine ⟨s.advance.skipWs.advance, ?_, hat.advance⟩
  simp only [Scanner.skipNested, hat.peek, List.head?_cons, if_true]

theorem skipNested_loop {b c close : UInt8} {empty : α} {loop : Scanner → Scanned α}
    (h : At bytes s (b :: (w ++ c :: rest))) (hw : Ws w) (hws : isWs c = false)
    (hclose : c ≠ close) (hidempotent : loop s.advance.skipWs = loop s.advance) :
    s.skipNested close empty loop = loop s.advance := by
  have hat := h.advance.skipWs_to hw (dense_cons hws _)
  simp only [Scanner.skipNested, hat.peek, List.head?_cons, Option.some.injEq, hclose, if_false,
    hidempotent]

/-- The scanner in front of a value, past the whitespace before it. -/
theorem At.skipWs_to_value {j : Json} (h : At bytes s (w ++ (t ++ rest))) (hw : Ws w)
    (hvalue : Derives (.value j) t) : At bytes s.skipWs (t ++ rest) := by
  obtain ⟨b, t', rfl, hb, -⟩ := value_head hvalue
  exact h.skipWs_to hw (dense_cons (isWs_eq_false hb) _)

/-- How the scanner goes on from the first byte of a value of this kind. -/
def Scanner.readKind (fuel : Nat) (s : Scanner) : Json → Scanned Value
  | .string _ => s.parseStringRaw.bind fun raw s => .ok (.string raw) s
  | .number _ => s.skipNumber.bind fun _ s => .ok .other s
  | .literal _ => s.skipLiteral.bind fun _ s => .ok .other s
  | .array _ => (s.skipNested 93 () (Scanner.skipItems fuel)).bind fun _ s => .ok .other s
  | .object _ => (s.skipNested 125 () (Scanner.skipMembers fuel)).bind fun _ s => .ok .other s

theorem parseValue_opens {j : Json} {b : UInt8} (hb : Opens b j)
    (h : At bytes s.skipWs (b :: rest)) (fuel : Nat) :
    Scanner.parseValue (fuel + 1) s = Scanner.readKind fuel s.skipWs j := by
  rw [parseValue_succ h]
  cases j with
  | string raw =>
    rw [if_pos (show b = 34 from hb)]
    rfl
  | number n =>
    have hb : b = 45 ∨ isDigit b = true := hb
    have hne : ∀ c, c ∈ ([34, 123, 91, 116, 102, 110] : List UInt8) → b ≠ c := by
      intro c hc hbc
      subst hbc
      revert hb
      simp only [List.mem_cons, List.not_mem_nil, or_false] at hc
      rcases hc with rfl | rfl | rfl | rfl | rfl | rfl <;> decide
    have hword : ¬ (b = 116 ∨ b = 102 ∨ b = 110) := by
      simp [hne 116 (by simp), hne 102 (by simp), hne 110 (by simp)]
    rw [if_neg (hne 34 (by simp)), if_neg (hne 123 (by simp)), if_neg (hne 91 (by simp)),
      if_neg hword, if_pos hb]
    rfl
  | literal l =>
    have hne : b ≠ 34 ∧ b ≠ 123 ∧ b ≠ 91 := by
      rcases hb with rfl | rfl | rfl <;> decide
    rw [if_neg hne.1, if_neg hne.2.1, if_neg hne.2.2,
      if_pos (show b = 116 ∨ b = 102 ∨ b = 110 from hb)]
    rfl
  | array js =>
    obtain rfl : b = 91 := hb
    rw [if_neg (by decide), if_neg (by decide), if_pos rfl]
    rfl
  | object ms =>
    obtain rfl : b = 123 := hb
    rw [if_neg (by decide), if_pos rfl]
    rfl

/-! ## Values by their kind -/

/-- A value is read if, from its first byte on, its kind is. -/
theorem reads_value {j : Json} (h : Derives (.value j) t)
    (hkind : ∀ s rest fuel, At bytes s (t ++ rest) → Stops rest → 2 * (t ++ rest).length ≤ fuel →
      ∃ s', Scanner.readKind fuel s j = .ok (valueOf j) s' ∧ At bytes s' rest) :
    Reads bytes (.value j) t := by
  intro s w rest fuel hat hw hstop hfuel
  obtain ⟨fuel, rfl⟩ : ∃ n, fuel = n + 1 := ⟨fuel - 1, by omega⟩
  have hat' := hat.skipWs_to_value hw h
  obtain ⟨s', hs', hrest⟩ := hkind s.skipWs rest fuel hat' hstop (by omega)
  refine ⟨s', ?_, hrest⟩
  obtain ⟨b, t', rfl, hb⟩ := value_opens h
  have hopen : At bytes s.skipWs (b :: (t' ++ rest)) := hat'
  rw [parseValue_opens hb hopen, hs']

theorem reads_string {raw : Text} (h : StringBody raw) :
    Reads bytes (.value (.string raw)) (quoted raw) := by
  refine reads_value (.string h) fun s rest fuel hat _ _ => ?_
  obtain ⟨s', hs', hat'⟩ := parseStringRaw_to hat h
  refine ⟨s', ?_, hat'⟩
  rw [Scanner.readKind, hs']
  rfl

theorem reads_number {n : Text} (h : NumberText n) : Reads bytes (.value (.number n)) n := by
  refine reads_value (.number h) fun s rest fuel hat hstop _ => ?_
  obtain ⟨s', hs', hat'⟩ := skipNumber_to hat h hstop
  refine ⟨s', ?_, hat'⟩
  rw [Scanner.readKind, hs']
  rfl

theorem reads_literal {l : Text} (h : l ∈ literals) : Reads bytes (.value (.literal l)) l := by
  refine reads_value (.literal h) fun s rest fuel hat _ _ => ?_
  obtain ⟨s', hs', hat'⟩ := skipLiteral_to hat h
  refine ⟨s', ?_, hat'⟩
  rw [Scanner.readKind, hs']
  rfl

theorem reads_emptyArray (hw : Ws w) : Reads bytes (.value (.array [])) (91 :: (w ++ [93])) := by
  refine reads_value (.emptyArray hw) fun s rest fuel hat _ _ => ?_
  have hopen : At bytes s (91 :: (w ++ 93 :: rest)) := by simpa using hat
  obtain ⟨s', hs', hat'⟩ := skipNested_empty () (Scanner.skipItems fuel) hopen hw (by decide)
  refine ⟨s', ?_, hat'⟩
  rw [Scanner.readKind, hs']
  rfl

theorem reads_emptyObject (hw : Ws w) :
    Reads bytes (.value (.object [])) (123 :: (w ++ [125])) := by
  refine reads_value (.emptyObject hw) fun s rest fuel hat _ _ => ?_
  have hopen : At bytes s (123 :: (w ++ 125 :: rest)) := by simpa using hat
  obtain ⟨s', hs', hat'⟩ := skipNested_empty () (Scanner.skipMembers fuel) hopen hw (by decide)
  refine ⟨s', ?_, hat'⟩
  rw [Scanner.readKind, hs']
  rfl

theorem reads_array {js : List Json} (h : Derives (.items js) t)
    (hitems : Reads bytes (.items js) t) :
    Reads bytes (.value (.array js)) (91 :: (t ++ [93])) := by
  refine reads_value (.array h) fun s rest fuel hat _ hfuel => ?_
  have hopen : At bytes s (91 :: (t ++ 93 :: rest)) := by simpa using hat
  obtain ⟨s', hs', hat'⟩ := hitems s.advance rest fuel hopen.advance (by
    simp only [List.cons_append, List.append_assoc, List.length_cons, List.length_append] at hfuel ⊢
    omega)
  obtain ⟨v, b, t', rfl, hv, hb, hclose⟩ := items_head h
  have hinside : At bytes s (91 :: (v ++ b :: (t' ++ 93 :: rest))) := by
    simpa [List.append_assoc] using hopen
  have hloop : s.skipNested 93 () (Scanner.skipItems fuel) = Scanner.skipItems fuel s.advance :=
    skipNested_loop hinside hv (isWs_eq_false hb) hclose (skipItems_skipWs hopen.advance fuel)
  refine ⟨s', ?_, hat'⟩
  rw [Scanner.readKind, hloop, hs']
  rfl

theorem reads_object {ms : List (Text × Json)} (h : Derives (.members ms) t)
    (hmembers : Reads bytes (.members ms) t) :
    Reads bytes (.value (.object ms)) (123 :: (t ++ [125])) := by
  refine reads_value (.object h) fun s rest fuel hat _ hfuel => ?_
  have hopen : At bytes s (123 :: (t ++ 125 :: rest)) := by simpa using hat
  obtain ⟨s', hs', hat'⟩ := hmembers s.advance rest fuel hopen.advance (by
    simp only [List.cons_append, List.append_assoc, List.length_cons, List.length_append] at hfuel ⊢
    omega)
  obtain ⟨v, t', rfl, hv⟩ := members_head h
  have hinside : At bytes s (123 :: (v ++ 34 :: (t' ++ 125 :: rest))) := by
    simpa [List.append_assoc] using hopen
  have hloop : s.skipNested 125 () (Scanner.skipMembers fuel) =
      Scanner.skipMembers fuel s.advance :=
    skipNested_loop hinside hv (by decide) (by decide) (skipMembers_skipWs hopen.advance fuel)
  refine ⟨s', ?_, hat'⟩
  rw [Scanner.readKind, hloop, hs']
  rfl

/-! ## Items and members -/

theorem reads_item {j : Json} {v v' : Text} (hv : Ws v) (hv' : Ws v')
    (hvalue : Reads bytes (.value j) t) : Reads bytes (.item j) (v ++ t ++ v') := by
  intro s c rest fuel hat hc hfuel
  have hat : At bytes s (v ++ (t ++ (v' ++ c :: rest))) := by
    simpa [List.append_assoc] using hat
  obtain ⟨s', hs', hat'⟩ := hvalue s v (v' ++ c :: rest) fuel hat hv
    (stops_of_ender hv' hc rest) (by
      simp only [List.length_append, List.length_cons] at hfuel ⊢
      omega)
  exact ⟨s', v', hs', hv', hat'⟩

theorem reads_member {v v' key : Text} {j : Json} (hv : Ws v) (hkey : StringBody key) (hv' : Ws v')
    (hitem : Reads bytes (.item j) t) :
    Reads bytes (.member key j) (v ++ quoted key ++ v' ++ 58 :: t) := by
  intro s c rest fuel hat hc hfuel
  have hat : At bytes s (v ++ (quoted key ++ (v' ++ 58 :: (t ++ c :: rest)))) := by
    simpa [List.append_assoc] using hat
  have hat₁ := hat.skipWs_to hv (dense_cons (b := 34) (by decide) _)
  obtain ⟨s₂, hs₂, hat₂⟩ := parseStringRaw_to hat₁ hkey
  have hat₃ := hat₂.skipWs_to hv' (dense_cons (b := 58) (by decide) _)
  obtain ⟨s', w, hs', hw, hat'⟩ := hitem s₂.skipWs.advance c rest fuel hat₃.advance hc (by
    simp only [List.length_append, List.length_cons] at hfuel ⊢
    omega)
  have hquote : s.skipWs.peek = some 34 := hat₁.peek
  have hcolon : s₂.skipWs.peek = some 58 := hat₃.peek
  refine ⟨s', w, ?_, hw, hat'⟩
  simp only [Scanner.member, hquote, hs₂, Scanned.ok_bind, hcolon, hs', ne_eq,
    not_true_eq_false, if_false]

/-- After the last of a list the scanner stands behind the closing byte. -/
theorem separator_last {β : Type} {x : Scanned β} {a : β} {close : UInt8}
    (more : Scanner → Scanned α) (result : α) (hclose : close ≠ 44) (hws : isWs close = false)
    (h : ∃ s w, x = .ok a s ∧ Ws w ∧ At bytes s (w ++ close :: rest)) :
    ∃ s', (x.bind fun _ s => s.separator close more result) = .ok result s' ∧
      At bytes s' rest := by
  obtain ⟨s₁, w, rfl, hw, hat⟩ := h
  exact separator_close more result hat hw hclose hws

/-- After a comma it goes on with the next one. -/
theorem separator_next {β : Type} {x : Scanned β} {a : β} (close : UInt8)
    (more : Scanner → Scanned α) (result : α)
    (h : ∃ s w, x = .ok a s ∧ Ws w ∧ At bytes s (w ++ 44 :: rest)) :
    ∃ s', (x.bind fun _ s => s.separator close more result) = more s' ∧ At bytes s' rest := by
  obtain ⟨s₁, w, rfl, hw, hat⟩ := h
  exact separator_more close more result hat hw

theorem reads_lastItem {j : Json} (hitem : Reads bytes (.item j) t) :
    Reads bytes (.items [j]) t := by
  intro s rest fuel hat hfuel
  obtain ⟨fuel, rfl⟩ : ∃ n, fuel = n + 1 := ⟨fuel - 1, by omega⟩
  rw [Scanner.skipItems]
  exact separator_last _ _ (by decide) (by decide)
    (hitem s 93 rest fuel hat (.inr (.inl rfl)) (by omega))

theorem reads_nextItem {j : Json} {js : List Json} {ts : Text} (hitem : Reads bytes (.item j) t)
    (hitems : Reads bytes (.items js) ts) : Reads bytes (.items (j :: js)) (t ++ 44 :: ts) := by
  intro s rest fuel hat hfuel
  obtain ⟨fuel, rfl⟩ : ∃ n, fuel = n + 1 := ⟨fuel - 1, by omega⟩
  have hat : At bytes s (t ++ 44 :: (ts ++ 93 :: rest)) := by
    simpa [List.append_assoc] using hat
  simp only [List.append_assoc, List.length_append, List.cons_append, List.length_cons] at hfuel
  obtain ⟨s₁, hs₁, hat₁⟩ := separator_next 93 (Scanner.skipItems fuel) ()
    (hitem s 44 _ fuel hat (.inl rfl) (by
      simp only [List.length_append, List.length_cons]
      omega))
  rw [Scanner.skipItems, hs₁]
  refine hitems s₁ rest fuel hat₁ ?_
  simp only [List.length_append, List.length_cons]
  omega

theorem reads_lastMember {key : Text} {j : Json} (hmember : Reads bytes (.member key j) t) :
    Reads bytes (.members [(key, j)]) t := by
  intro s rest fuel hat hfuel
  obtain ⟨fuel, rfl⟩ : ∃ n, fuel = n + 1 := ⟨fuel - 1, by omega⟩
  rw [Scanner.skipMembers]
  exact separator_last _ _ (by decide) (by decide)
    (hmember s 125 rest fuel hat (.inr (.inr rfl)) (by omega))

theorem reads_nextMember {key : Text} {j : Json} {ms : List (Text × Json)} {ts : Text}
    (hmember : Reads bytes (.member key j) t) (hmembers : Reads bytes (.members ms) ts) :
    Reads bytes (.members ((key, j) :: ms)) (t ++ 44 :: ts) := by
  intro s rest fuel hat hfuel
  obtain ⟨fuel, rfl⟩ : ∃ n, fuel = n + 1 := ⟨fuel - 1, by omega⟩
  have hat : At bytes s (t ++ 44 :: (ts ++ 125 :: rest)) := by
    simpa [List.append_assoc] using hat
  simp only [List.append_assoc, List.length_append, List.cons_append, List.length_cons] at hfuel
  obtain ⟨s₁, hs₁, hat₁⟩ := separator_next 125 (Scanner.skipMembers fuel) ()
    (hmember s 44 _ fuel hat (.inl rfl) (by
      simp only [List.length_append, List.length_cons]
      omega))
  rw [Scanner.skipMembers, hs₁]
  refine hmembers s₁ rest fuel hat₁ ?_
  simp only [List.length_append, List.length_cons]
  omega

/-- The scanner reads every node that the grammar derives. -/
theorem derives_reads (bytes : List UInt8) {node : Node} {t : Text} (h : Derives node t) :
    Reads bytes node t := by
  induction h with
  | string h => exact reads_string h
  | number h => exact reads_number h
  | literal h => exact reads_literal h
  | emptyArray hw => exact reads_emptyArray hw
  | array h ih => exact reads_array h ih
  | emptyObject hw => exact reads_emptyObject hw
  | object h ih => exact reads_object h ih
  | item hv h hv' ih => exact reads_item hv hv' ih
  | lastItem h ih => exact reads_lastItem ih
  | nextItem h hs ih ihs => exact reads_nextItem ih ihs
  | member hv hkey hv' h ih => exact reads_member hv hkey hv' ih
  | lastMember h ih => exact reads_lastMember ih
  | nextMember h hs ih ihs => exact reads_nextMember ih ihs

end

end Mqtt
end GarageDoor
