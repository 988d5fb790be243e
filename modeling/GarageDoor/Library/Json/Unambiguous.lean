/-
JSON texts have one reading.

Two nodes at the front of the same text are the same node, as long as what follows
each may follow a node of its kind.
-/
import GarageDoor.Library.Json

namespace GarageDoor
namespace Library
namespace Json

open Ascii

/-! ## Lexical pieces -/

/-- A longest front of bytes that satisfy `P` is unique. -/
theorem span_unique {P : UInt8 → Prop} {w : Text} : ∀ {w' r r' : Text}, (∀ b ∈ w, P b) →
    (∀ b ∈ w', P b) → (∀ b, r.head? = some b → ¬ P b) → (∀ b, r'.head? = some b → ¬ P b) →
    w ++ r = w' ++ r' → w = w' ∧ r = r' := by
  induction w with
  | nil =>
    intro w' r r' _ hw' hr _ h
    cases w' with
    | nil => exact ⟨rfl, h⟩
    | cons b w' =>
      rw [List.nil_append] at h
      exact absurd (hw' b List.mem_cons_self) (hr b (by rw [h]; rfl))
  | cons b w ih =>
    intro w' r r' hw hw' hr hr' h
    cases w' with
    | nil =>
      rw [List.nil_append] at h
      exact absurd (hw b List.mem_cons_self) (hr' b (by rw [← h]; rfl))
    | cons b' w' =>
      rw [List.cons_append, List.cons_append, List.cons.injEq] at h
      obtain ⟨rfl, rfl⟩ := ih (fun c hc => hw c (List.mem_cons_of_mem b hc))
        (fun c hc => hw' c (List.mem_cons_of_mem b' hc)) hr hr' h.2
      exact ⟨by rw [h.1], rfl⟩

/-- No body of a string runs past the first quote that closes it. -/
theorem characters_unique {raw : Text} (hraw : Characters raw) :
    ∀ {raw' r r' : Text}, Characters raw' → raw ++ 34 :: r = raw' ++ 34 :: r' →
      raw = raw' ∧ r = r' := by
  induction hraw with
  | nil =>
    intro raw' r r' hraw' h
    cases hraw' with
    | nil => exact ⟨rfl, (List.cons.inj h).2⟩
    | plain hcontrol hquote hbackslash hrest => exact absurd (List.cons.inj h).1.symm hquote
    | escape hb hrest => cases (List.cons.inj h).1
    | unicode hlength hhex hrest => cases (List.cons.inj h).1
  | @plain b rest hcontrol hquote hbackslash hrest ih =>
    intro raw' r r' hraw' h
    cases hraw' with
    | nil => exact absurd (List.cons.inj h).1 hquote
    | plain hcontrol' hquote' hbackslash' hrest' =>
      rw [List.cons_append, List.cons_append, List.cons.injEq] at h
      obtain ⟨rfl, rfl⟩ := ih hrest' h.2
      exact ⟨by rw [h.1], rfl⟩
    | escape hb hrest' => exact absurd (List.cons.inj h).1 hbackslash
    | unicode hlength hhex hrest' => exact absurd (List.cons.inj h).1 hbackslash
  | @escape b rest hb hrest ih =>
    intro raw' r r' hraw' h
    cases hraw' with
    | nil => cases (List.cons.inj h).1
    | plain hcontrol hquote hbackslash hrest' =>
      exact absurd (List.cons.inj h).1.symm hbackslash
    | escape hb' hrest' =>
      simp only [List.cons_append, List.cons.injEq, true_and] at h
      obtain ⟨rfl, rfl⟩ := ih hrest' h.2
      exact ⟨by rw [h.1], rfl⟩
    | unicode hlength hhex hrest' =>
      obtain ⟨rfl, -⟩ := List.cons.inj (List.cons.inj h).2
      exact absurd hb (by decide)
  | @unicode ds rest hlength hhex hrest ih =>
    intro raw' r r' hraw' h
    cases hraw' with
    | nil => cases (List.cons.inj h).1
    | plain hcontrol hquote hbackslash hrest' =>
      exact absurd (List.cons.inj h).1.symm hbackslash
    | escape hb hrest' =>
      obtain ⟨hbu, -⟩ := List.cons.inj (List.cons.inj h).2
      exact absurd (hbu ▸ hb) (by decide)
    | @unicode ds' rest' hlength' hhex' hrest' =>
      simp only [List.cons_append, List.append_assoc, List.cons.injEq, true_and] at h
      obtain ⟨hds, htail⟩ := List.append_inj h (hlength.trans hlength'.symm)
      obtain ⟨rfl, rfl⟩ := ih hrest' htail
      exact ⟨by rw [hds], rfl⟩

theorem quoted_unique {raw raw' r r' : Text} (h : StringBody raw) (h' : StringBody raw')
    (heq : quoted raw ++ r = quoted raw' ++ r') : raw = raw' ∧ r = r' := by
  refine characters_unique h.characters h'.characters ?_
  simpa [quoted] using heq

/-- The bytes that numbers are made of. -/
def NumberByte (b : UInt8) : Prop :=
  isDigit b = true ∨ b ∈ ([43, 45, 46, 69, 101] : List UInt8)

theorem number_bytes {n : Text} (h : NumberText n) : ∀ b ∈ n, NumberByte b := by
  obtain ⟨sign, ds, f, e, hsign, ⟨-, hds⟩, hf, he, rfl⟩ := h
  have hdigits : ∀ {ds : Text}, Digits ds → ∀ b ∈ ds, NumberByte b :=
    fun hds b hb => .inl (hds.2 b hb)
  simp only [List.mem_append]
  rintro b (((hb | hb) | hb) | hb)
  · rcases hsign with rfl | rfl
    · cases hb
    · exact .inr (by simp_all)
  · exact .inl (hds b hb)
  · rcases hf with rfl | ⟨ds, hds, rfl⟩
    · cases hb
    · rcases List.mem_cons.mp hb with rfl | hb
      · exact .inr (by simp)
      · exact hdigits hds b hb
  · rcases he with rfl | ⟨mark, sign, ds, hmark, hsign, hds, rfl⟩
    · cases hb
    · rcases List.mem_cons.mp hb with rfl | hb
      · exact .inr (by rcases hmark with rfl | rfl <;> simp)
      · rcases List.mem_append.mp hb with hb | hb
        · exact .inr (by rcases hsign with rfl | rfl | rfl <;> simp_all)
        · exact hdigits hds b hb

theorem literal_unique {l l' r r' : Text} (hl : l ∈ literals) (hl' : l' ∈ literals)
    (h : l ++ r = l' ++ r') : l = l' ∧ r = r' := by
  have hhead : l.head? = l'.head? := by
    have := congrArg List.head? h
    obtain ⟨b, k, rfl, -⟩ := literal_head hl
    obtain ⟨b', k', rfl, -⟩ := literal_head hl'
    exact this
  have heq : l = l' := by
    simp only [literals, List.mem_cons, List.not_mem_nil, or_false] at hl hl'
    rcases hl with rfl | rfl | rfl <;> rcases hl' with rfl | rfl | rfl <;>
      first
        | rfl
        | exact absurd hhead (by decide)
  exact ⟨heq, List.append_cancel_left (heq ▸ h)⟩

/-! ## What may follow -/

/-- An item or a member is followed by a comma, a closing byte or nothing. -/
def Delimited (rest : Text) : Prop := ∀ b, rest.head? = some b → b = 44 ∨ b = 93 ∨ b = 125

/-- A value is followed by no byte that a number could go on with. -/
def Bounded (rest : Text) : Prop := ∀ b, rest.head? = some b → ¬ NumberByte b

theorem delimited_nil : Delimited [] := fun _ h => nomatch h

theorem delimited_cons {b : UInt8} (hb : b = 44 ∨ b = 93 ∨ b = 125) (rest : Text) :
    Delimited (b :: rest) := by
  intro c hc
  cases hc
  exact hb

theorem Delimited.not_ws {rest : Text} (h : Delimited rest) :
    ∀ b, rest.head? = some b → ¬ IsWs b := by
  intro b hb
  rcases h b hb with rfl | rfl | rfl <;> simp [IsWs]

theorem bounded_append {w rest : Text} (hw : Ws w) (h : Delimited rest) :
    Bounded (w ++ rest) := by
  intro b hb
  cases w with
  | nil => rcases h b hb with rfl | rfl | rfl <;> simp [NumberByte, isDigit]
  | cons c w =>
    cases hb
    rcases hw b List.mem_cons_self with rfl | rfl | rfl | rfl <;> simp [NumberByte, isDigit]

theorem number_unique {n n' r r' : Text} (hn : NumberText n) (hn' : NumberText n')
    (hr : Bounded r) (hr' : Bounded r') (h : n ++ r = n' ++ r') : n = n' ∧ r = r' :=
  span_unique (number_bytes hn) (number_bytes hn') hr hr' h

theorem ws_unique {w w' r r' : Text} (hw : Ws w) (hw' : Ws w')
    (hr : ∀ b, r.head? = some b → ¬ IsWs b) (hr' : ∀ b, r'.head? = some b → ¬ IsWs b)
    (h : w ++ r = w' ++ r') : w = w' ∧ r = r' := span_unique hw hw' hr hr' h

theorem head_not_ws {b : UInt8} (hb : ¬ IsWs b) (rest : Text) :
    ∀ c, (b :: rest).head? = some c → ¬ IsWs c := by
  intro c hc
  cases hc
  exact hb

/-! ## Values by their first byte -/

def SameKind : Json → Json → Prop
  | .string _, .string _ => True
  | .number _, .number _ => True
  | .literal _, .literal _ => True
  | .array _, .array _ => True
  | .object _, .object _ => True
  | _, _ => False

theorem Opens.sameKind {b : UInt8} {j j' : Json} (h : Opens b j) (h' : Opens b j') :
    SameKind j j' := by
  cases j <;> cases j' <;> simp only [Opens, SameKind] at h h' ⊢ <;>
    first
      | (subst h; revert h'; decide)
      | (subst h'; revert h; decide)
      | (rcases h with rfl | rfl | rfl <;> revert h' <;> decide)
      | (rcases h' with rfl | rfl | rfl <;> revert h <;> decide)

section

variable {t t' r r' : Text}

theorem sameKind_of_value {j j' : Json} (h : Derives (.value j) t) (h' : Derives (.value j') t')
    (heq : t ++ r = t' ++ r') : SameKind j j' := by
  obtain ⟨b, u, rfl, hb⟩ := value_opens h
  obtain ⟨b', u', rfl, hb'⟩ := value_opens h'
  rw [List.cons_append, List.cons_append, List.cons.injEq] at heq
  exact hb.sameKind (heq.1 ▸ hb')

theorem empty_ne_items {w : Text} {js : List Json} (hw : Ws w) (h : Derives (.items js) t) :
    w ++ 93 :: r ≠ t ++ 93 :: r' := by
  intro heq
  obtain ⟨v, b, u, rfl, hv, hb, hclose⟩ := items_head h
  rw [List.append_assoc] at heq
  obtain ⟨-, htail⟩ := ws_unique hw hv (head_not_ws (by simp [IsWs]) r) (head_not_ws hb _) heq
  exact hclose (List.cons.inj htail).1.symm

theorem empty_ne_members {w : Text} {ms : List (Text × Json)} (hw : Ws w)
    (h : Derives (.members ms) t) : w ++ 125 :: r ≠ t ++ 125 :: r' := by
  intro heq
  obtain ⟨v, u, rfl, hv⟩ := members_head h
  rw [List.append_assoc] at heq
  obtain ⟨-, htail⟩ := ws_unique hw hv (head_not_ws (by simp [IsWs]) r)
    (head_not_ws (by simp [IsWs]) _) heq
  cases (List.cons.inj htail).1

end

/-! ## Lists with commas -/

/-- One element, or an element, a comma and a list. -/
inductive Listed {α : Type} (E : α → Text → Prop) (L : List α → Text → Prop) :
    List α → Text → Prop where
  | last {x t} (h : E x t) : Listed E L [x] t
  | next {x t xs u} (h : E x t) (hs : L xs u) : Listed E L (x :: xs) (t ++ 44 :: u)

/-- An element at the front of a text, and what follows it, can be told from the text. -/
def UniqueElement {α : Type} (E : α → Text → Prop) (x : α) (t : Text) : Prop :=
  ∀ {x' t' r r'}, E x' t' → Delimited r → Delimited r' → t ++ r = t' ++ r' → x = x' ∧ r = r'

section

variable {α : Type} {E : α → Text → Prop} {L : List α → Text → Prop} {x : α} {xs ys : List α}
  {close : UInt8} {t t' u r r' : Text}

theorem listed_last_unique (hclose : close = 93 ∨ close = 125) (hx : UniqueElement E x t)
    (h : Listed E L ys t') (heq : t ++ close :: r = t' ++ close :: r') : [x] = ys ∧ r = r' := by
  have hends : ∀ rest, Delimited (close :: rest) := delimited_cons (.inr hclose)
  cases h with
  | last h =>
    obtain ⟨rfl, hr⟩ := hx h (hends r) (hends r') heq
    exact ⟨rfl, (List.cons.inj hr).2⟩
  | next h hs =>
    rw [List.append_assoc, List.cons_append] at heq
    obtain ⟨-, hr⟩ := hx h (hends r) (delimited_cons (.inl rfl) _) heq
    obtain ⟨rfl, -⟩ := List.cons.inj hr
    exact absurd hclose (by decide)

theorem listed_next_unique (hclose : close = 93 ∨ close = 125) (hx : UniqueElement E x t)
    (hxs : ∀ {ys t' r r'}, L ys t' → u ++ close :: r = t' ++ close :: r' → xs = ys ∧ r = r')
    (h : Listed E L ys t') (heq : (t ++ 44 :: u) ++ close :: r = t' ++ close :: r') :
    x :: xs = ys ∧ r = r' := by
  rw [List.append_assoc, List.cons_append] at heq
  cases h with
  | last h =>
    obtain ⟨-, hr⟩ := hx h (delimited_cons (.inl rfl) _) (delimited_cons (.inr hclose) r') heq
    obtain ⟨rfl, -⟩ := List.cons.inj hr
    exact absurd hclose (by decide)
  | next h hs =>
    rw [List.append_assoc, List.cons_append] at heq
    obtain ⟨rfl, hr⟩ := hx h (delimited_cons (.inl rfl) _) (delimited_cons (.inl rfl) _) heq
    obtain ⟨rfl, rfl⟩ := hxs hs (List.cons.inj hr).2
    exact ⟨rfl, rfl⟩

theorem items_listed {js : List Json} (h : Derives (.items js) t) :
    Listed (fun j => Derives (.item j)) (fun js => Derives (.items js)) js t := by
  cases h with
  | lastItem h => exact .last h
  | nextItem h hs => exact .next h hs

theorem members_listed {ms : List (Text × Json)} (h : Derives (.members ms) t) :
    Listed (fun m => Derives (.member m.1 m.2)) (fun ms => Derives (.members ms)) ms t := by
  cases h with
  | @lastMember key j _ h => exact .last (x := (key, j)) h
  | @nextMember key j _ _ _ h hs => exact .next (x := (key, j)) h hs

end

/-! ## Nodes -/

/-- What two brackets of a kind enclose, up to where they close. -/
theorem enclosed {b close : UInt8} {t t' r r' : Text}
    (h : b :: (t ++ [close]) ++ r = b :: (t' ++ [close]) ++ r') :
    t ++ close :: r = t' ++ close :: r' := by
  simpa [List.append_assoc] using h

theorem empty_unique {close : UInt8} {w w' r r' : Text} (hclose : ¬ IsWs close) (hw : Ws w)
    (hw' : Ws w') (h : w ++ close :: r = w' ++ close :: r') : r = r' := by
  obtain ⟨-, htail⟩ := ws_unique hw hw' (head_not_ws hclose r) (head_not_ws hclose r') h
  exact (List.cons.inj htail).2

/-- The node at the front of a text, and what follows it, can be told from the text. -/
def Unique : Node → Text → Prop
  | .value j, t => ∀ {j' t' r r'}, Derives (.value j') t' → Bounded r → Bounded r' →
      t ++ r = t' ++ r' → j = j' ∧ r = r'
  | .item j, t => ∀ {j' t' r r'}, Derives (.item j') t' → Delimited r → Delimited r' →
      t ++ r = t' ++ r' → j = j' ∧ r = r'
  | .items js, t => ∀ {js' t' r r'}, Derives (.items js') t' →
      t ++ 93 :: r = t' ++ 93 :: r' → js = js' ∧ r = r'
  | .member key j, t => ∀ {key' j' t' r r'}, Derives (.member key' j') t' → Delimited r →
      Delimited r' → t ++ r = t' ++ r' → (key, j) = (key', j') ∧ r = r'
  | .members ms, t => ∀ {ms' t' r r'}, Derives (.members ms') t' →
      t ++ 125 :: r = t' ++ 125 :: r' → ms = ms' ∧ r = r'

theorem derives_unique {node : Node} {t : Text} (h : Derives node t) : Unique node t := by
  induction h with
  | string h =>
    intro j' t' r r' h' _ _ heq
    have hkind := sameKind_of_value (.string h) h' heq
    cases h' with
    | string h' =>
      obtain ⟨rfl, rfl⟩ := quoted_unique h h' heq
      exact ⟨rfl, rfl⟩
    | _ => exact hkind.elim
  | number h =>
    intro j' t' r r' h' hr hr' heq
    have hkind := sameKind_of_value (.number h) h' heq
    cases h' with
    | number h' =>
      obtain ⟨rfl, rfl⟩ := number_unique h h' hr hr' heq
      exact ⟨rfl, rfl⟩
    | _ => exact hkind.elim
  | literal h =>
    intro j' t' r r' h' _ _ heq
    have hkind := sameKind_of_value (.literal h) h' heq
    cases h' with
    | literal h' =>
      obtain ⟨rfl, rfl⟩ := literal_unique h h' heq
      exact ⟨rfl, rfl⟩
    | _ => exact hkind.elim
  | emptyArray hw =>
    intro j' t' r r' h' _ _ heq
    have hkind := sameKind_of_value (.emptyArray hw) h' heq
    cases h' with
    | emptyArray hw' =>
      exact ⟨rfl, empty_unique (by simp [IsWs]) hw hw' (enclosed heq)⟩
    | array h' =>
      exact absurd (enclosed heq) (empty_ne_items hw h')
    | _ => exact hkind.elim
  | array h ih =>
    intro j' t' r r' h' _ _ heq
    have hkind := sameKind_of_value (.array h) h' heq
    cases h' with
    | emptyArray hw' =>
      exact absurd (enclosed heq).symm (empty_ne_items hw' h)
    | array h' =>
      obtain ⟨rfl, rfl⟩ := ih h' (enclosed heq)
      exact ⟨rfl, rfl⟩
    | _ => exact hkind.elim
  | emptyObject hw =>
    intro j' t' r r' h' _ _ heq
    have hkind := sameKind_of_value (.emptyObject hw) h' heq
    cases h' with
    | emptyObject hw' =>
      exact ⟨rfl, empty_unique (by simp [IsWs]) hw hw' (enclosed heq)⟩
    | object h' =>
      exact absurd (enclosed heq) (empty_ne_members hw h')
    | _ => exact hkind.elim
  | object h ih =>
    intro j' t' r r' h' _ _ heq
    have hkind := sameKind_of_value (.object h) h' heq
    cases h' with
    | emptyObject hw' =>
      exact absurd (enclosed heq).symm (empty_ne_members hw' h)
    | object h' =>
      obtain ⟨rfl, rfl⟩ := ih h' (enclosed heq)
      exact ⟨rfl, rfl⟩
    | _ => exact hkind.elim
  | @item w j t v hw h hv ih =>
    intro j' t' r r' h' hr hr' heq
    cases h' with
    | @item w' _ u v' hw' h' hv' =>
      obtain ⟨b, t, rfl, hb, -⟩ := value_head h
      obtain ⟨b', u, rfl, hb', -⟩ := value_head h'
      simp only [List.append_assoc] at heq
      obtain ⟨-, hvalue⟩ := ws_unique hw hw' (head_not_ws hb _) (head_not_ws hb' _) heq
      obtain ⟨rfl, htail⟩ := ih h' (bounded_append hv hr) (bounded_append hv' hr') hvalue
      exact ⟨rfl, (ws_unique hv hv' hr.not_ws hr'.not_ws htail).2⟩
  | lastItem h ih =>
    intro js' t' r r' h' heq
    exact listed_last_unique (.inl rfl) ih (items_listed h') heq
  | nextItem h hs ih ihs =>
    intro js' t' r r' h' heq
    exact listed_next_unique (.inl rfl) ih ihs (items_listed h') heq
  | @member w key v j t hw hkey hv h ih =>
    intro key' j' t' r r' h' hr hr' heq
    cases h' with
    | @member w' _ v' _ t' hw' hkey' hv' h' =>
      simp only [List.append_assoc, List.cons_append] at heq
      obtain ⟨-, hquoted⟩ := ws_unique hw hw' (head_not_ws (by simp [IsWs]) _)
        (head_not_ws (by simp [IsWs]) _) heq
      obtain ⟨rfl, hcolon⟩ := quoted_unique hkey hkey' hquoted
      obtain ⟨-, hitem⟩ := ws_unique hv hv' (head_not_ws (by simp [IsWs]) _)
        (head_not_ws (by simp [IsWs]) _) hcolon
      obtain ⟨rfl, rfl⟩ := ih h' hr hr' (List.cons.inj hitem).2
      exact ⟨rfl, rfl⟩
  | @lastMember key j t h ih =>
    intro ms' t' r r' h' heq
    exact listed_last_unique (x := (key, j)) (.inr rfl) ih (members_listed h') heq
  | @nextMember key j t ms u h hs ih ihs =>
    intro ms' t' r r' h' heq
    exact listed_next_unique (x := (key, j)) (.inr rfl) ih ihs (members_listed h') heq

/-- A text is the text of one value at most. -/
theorem item_unambiguous {j j' : Json} {t : Text} (h : Derives (.item j) t)
    (h' : Derives (.item j') t) : j = j' :=
  (derives_unique h h' delimited_nil delimited_nil rfl).1

end Json
end Library
end GarageDoor
