/-
The checked scanner behaves as the plain one on values and status requests.

A loop of the plain scanner takes two units of fuel for every byte left, a value of the
checked one a level of depth.  Both are enough because every item consumes a byte.
-/
import GarageDoor.Core.Mqtt.Checked.Lexical

namespace GarageDoor
namespace Mqtt

open Library Ascii

namespace Scan

open Checked

section

variable {α β τ : Type} {s : Scanner}

/-! ## Values -/

/-- The key of a plain member. -/
def plainKey (s : Scanner) : Scanned Text :=
  let s := s.skipWs
  if s.peek ≠ some 34 then
    .error .malformed
  else
    s.parseStringRaw.bind fun key s =>
      let s := s.skipWs
      if s.peek ≠ some 58 then .error .malformed else .ok key s.advance

theorem member_eq (parse : Scanner → Scanned Value) (s : Scanner) :
    s.member parse = (plainKey s).bind fun key s => (parse s).bind fun value s =>
      .ok (key, value) s := by
  unfold Scanner.member plainKey
  by_cases hquote : s.skipWs.peek = some 34
  · simp only [hquote, ne_eq, not_true_eq_false, if_false]
    cases s.skipWs.parseStringRaw with
    | ok key t =>
      simp only [Scanned.ok_bind]
      by_cases hcolon : t.skipWs.peek = some 58
      · simp only [hcolon, not_true_eq_false, if_false, Scanned.ok_bind]
      · simp only [hcolon, not_false_eq_true, if_true]
        rfl
    | error e => rfl
    | outOfFuel => rfl
  · simp only [hquote, ne_eq, not_false_eq_true, if_true]
    rfl

theorem alike_memberKey (h : s.Within) :
    Alike (fun _ => Passes s) (memberKey s) (plainKey s).outcome := by
  have hws := alike_skipWs h
  have hreaches : Reaches s s.skipWs := hws.post hws.eq
  unfold memberKey plainKey
  rw [bind_apply, hws.eq, Outcome.ok_bind, bind_apply, peek_apply, Outcome.ok_bind]
  by_cases hquote : s.skipWs.peek = some 34
  · simp only [hquote, ne_eq, not_true_eq_false, if_false]
    rw [bind_apply, outcome_bind]
    refine (alike_parseStringRaw hquote).bind fun key t ht => ?_
    have hwst := alike_skipWs ht.within
    have hreachest : Reaches t t.skipWs := hwst.post hwst.eq
    rw [bind_apply, hwst.eq, Outcome.ok_bind, bind_apply, peek_apply, Outcome.ok_bind]
    by_cases hcolon : t.skipWs.peek = some 58
    · simp only [hcolon, not_true_eq_false, if_false]
      rw [bind_apply, advance_apply hcolon]
      exact .ok (hreaches.passes (ht.reaches (hreachest.passes (passes_advance hcolon)).toReaches))
    · simp only [hcolon, not_false_eq_true, if_true]
      exact .error _
  · simp only [hquote, ne_eq, not_false_eq_true, if_true]
    exact .error _

/-- A plain loop over items, unfolded once. -/
def Unfolds (close : UInt8) (item : Nat → τ → Scanner → Scanned τ) (result : τ → α)
    (plain : Nat → τ → Scanner → Scanned α) : Prop :=
  ∀ fuel t s, plain (fuel + 1) t s = (item fuel t s).bind fun t s =>
    s.separator close (plain fuel t) (result t)

theorem round_separator {close : UInt8} {t : τ} {result : α} {more : Scanner → Scanned α}
    {I : τ → Scanner → Prop} {Q : α → Scanner → Prop} {u : Scanner} (h : Passes s u)
    (hgo : ∀ v, Passes s v → (u.separator close more result).outcome = (more v).outcome → I t v)
    (hleave : ∀ v, Passes s v → Q result v) :
    Round Scanner.left I Q (u.separator close more result).outcome s
      (separator close t result u) := by
  have hws := alike_skipWs h.within
  have hpasses : Passes s u.skipWs := h.reaches (hws.post hws.eq)
  unfold separator
  rw [bind_apply, hws.eq, Outcome.ok_bind, bind_apply, peek_apply, Outcome.ok_bind]
  by_cases hcomma : u.skipWs.peek = some 44
  · have hplain : u.separator close more result = more u.skipWs.advance := if_pos hcomma
    have hadvance := hpasses.trans (passes_advance hcomma)
    rw [if_pos hcomma, bind_apply, advance_apply hcomma]
    exact .again hadvance.left_lt (hgo _ hadvance (by rw [hplain]))
  by_cases hclose : u.skipWs.peek = some close
  · have hplain : u.separator close more result = .ok result u.skipWs.advance :=
      (if_neg hcomma).trans (if_pos hclose)
    have hadvance := hpasses.trans (passes_advance hclose)
    rw [if_neg hcomma, if_pos hclose, bind_apply, advance_apply hclose]
    exact .leave (by rw [hplain]; rfl) (hleave _ hadvance)
  · have hplain : u.separator close more result = .error .malformed :=
      (if_neg hcomma).trans (if_neg hclose)
    rw [if_neg hcomma, if_neg hclose]
    exact .error (by rw [hplain]; rfl)

/-- Rounds over items and separators behave as the plain loop with two units of fuel for
every byte left. -/
theorem alike_loop {close : UInt8} {item : Nat → τ → Scanner → Scanned τ} {result : τ → α}
    {plain : Nat → τ → Scanner → Scanned α} {citem : τ → Scan τ} {bound : Nat}
    (hplain : Unfolds close item result plain)
    (hitem : ∀ fuel t s, s.Within → s.left < bound → 2 * s.left + 1 ≤ fuel →
      Alike (fun _ => Passes s) (citem t s) (item fuel t s).outcome)
    {fuel : Nat} {t : τ} (h : s.Within) (hbound : s.left < bound) (hfuel : 2 * s.left + 2 ≤ fuel) :
    Alike (fun _ => Passes s)
      (loop (fun t => do
        let t ← citem t
        separator close t (result t)) t s) (plain fuel t s).outcome := by
  refine Alike.loop (I := fun t' s' => Reaches s s' ∧
    ∃ fuel', 2 * s'.left + 2 ≤ fuel' ∧ (plain fuel' t' s').outcome = (plain fuel t s).outcome)
    ⟨.refl h, fuel, hfuel, rfl⟩ ?_
  intro t' s' ⟨hreaches, fuel', hfuel', hrun⟩
  obtain ⟨left, rfl⟩ : ∃ left, fuel' = left + 1 := ⟨fuel' - 1, by omega⟩
  have hle := hreaches.left_le
  have hround := hitem left t' s' hreaches.within (by omega) (by omega)
  rw [hplain, outcome_bind] at hrun
  rw [bind_apply, hround.eq]
  cases hstep : item left t' s' with
  | ok t'' u =>
    rw [hstep] at hround hrun
    have hpasses : Passes s' u := hround.post hround.eq
    rw [← hrun]
    refine round_separator hpasses (fun v hv hmore => ?_) fun v hv => hreaches.passes hv
    have hlt := hv.left_lt
    exact ⟨hreaches.trans hv.toReaches, left, by omega, hmore.symm⟩
  | error e =>
    rw [hstep] at hrun
    exact .error hrun.symm
  | outOfFuel =>
    rw [hstep] at hround
    exact absurd hround.eq hround.ne_fault

theorem alike_nested {b close : UInt8} {empty : α} {item : Nat → τ → Scanner → Scanned τ}
    {result : τ → α} {plain : Nat → τ → Scanner → Scanned α} {citem : τ → Scan τ}
    (hplain : Unfolds close item result plain)
    (hitem : ∀ fuel t u, u.Within → u.left < s.left → 2 * u.left + 1 ≤ fuel →
      Alike (fun _ => Passes u) (citem t u) (item fuel t u).outcome)
    {fuel : Nat} {t : τ} (h : s.peek = some b) (hfuel : 2 * s.left ≤ fuel) :
    Alike (fun _ => Passes s) (nested close empty citem result t s)
      (s.skipNested close empty (plain fuel t)).outcome := by
  have hopen := passes_advance h
  have hws := alike_skipWs hopen.within
  have hpasses : Passes s s.advance.skipWs := hopen.reaches (hws.post hws.eq)
  unfold nested Scanner.skipNested
  rw [bind_apply, advance_apply h, Outcome.ok_bind, bind_apply, hws.eq, Outcome.ok_bind,
    bind_apply, peek_apply, Outcome.ok_bind]
  by_cases hclose : s.advance.skipWs.peek = some close
  · simp only [if_pos hclose]
    rw [bind_apply, advance_apply hclose]
    exact .ok (hpasses.trans (passes_advance hclose))
  · have hlt := hpasses.left_lt
    simp only [if_neg hclose]
    exact (alike_loop hplain hitem hpasses.within hlt (by omega)).mono fun _ u hu =>
      hpasses.trans hu

/-! ## Nested values -/

/-- What is asked of the scan of the values inside another. -/
def Nests (s : Scanner) (inner : Scan Value) : Prop :=
  ∀ fuel u, u.Within → u.left < s.left → 2 * u.left + 1 ≤ fuel →
    Alike (fun _ => Passes u) (inner u) (u.parseValue fuel).outcome

def plainMember (fuel : Nat) (_ : Unit) (s : Scanner) : Scanned Unit :=
  (plainKey s).bind fun _ s => (s.parseValue fuel).bind fun _ s => .ok () s

def plainItem (fuel : Nat) (_ : Unit) (s : Scanner) : Scanned Unit :=
  (s.parseValue fuel).bind fun _ s => .ok () s

theorem bind_assoc {γ : Type} (x : Scanned α) (f : α → Scanner → Scanned β)
    (g : β → Scanner → Scanned γ) : (x.bind f).bind g = x.bind fun a s => (f a s).bind g := by
  cases x <;> rfl

theorem skipMembers_unfolds :
    Unfolds 125 plainMember id fun fuel _ s => s.skipMembers fuel := by
  intro fuel t s
  show s.skipMembers (fuel + 1) = _
  rw [Scanner.skipMembers, member_eq]
  unfold plainMember
  simp only [bind_assoc]
  rfl

theorem skipItems_unfolds : Unfolds 93 plainItem id fun fuel _ s => s.skipItems fuel := by
  intro fuel t s
  show s.skipItems (fuel + 1) = _
  rw [Scanner.skipItems]
  unfold plainItem
  simp only [bind_assoc]
  rfl

theorem alike_skipValueOnly {inner : Scan Value} {fuel : Nat} {u : Scanner}
    (hinner : Nests s inner) (h : u.Within) (hlt : u.left < s.left)
    (hfuel : 2 * u.left + 1 ≤ fuel) :
    Alike (fun _ => Passes u) (skipValueOnly inner u) (plainItem fuel () u).outcome := by
  unfold skipValueOnly plainItem
  rw [bind_apply, outcome_bind]
  exact (hinner fuel u h hlt hfuel).bind fun _ v hv => .ok hv

theorem alike_skipObject {inner : Scan Value} {fuel : Nat} (hinner : Nests s inner)
    (h : s.peek = some 123) (hfuel : 2 * s.left ≤ fuel) :
    Alike (fun _ => Passes s) (skipObject inner s)
      (s.skipNested 125 () fun s => s.skipMembers fuel).outcome := by
  refine Alike.ensuring ?_ fun _ _ hpasses => hpasses.lt
  refine alike_nested skipMembers_unfolds (fun fuel _ u hu hlt hfuel => ?_) h hfuel
  unfold plainMember
  rw [bind_apply, outcome_bind]
  refine (alike_memberKey hu).bind fun _ v hv => ?_
  have hlt' := hv.left_lt
  exact (alike_skipValueOnly hinner hv.within (by omega) (by omega)).mono fun _ w hw =>
    hv.trans hw

theorem alike_skipArray {inner : Scan Value} {fuel : Nat} (hinner : Nests s inner)
    (h : s.peek = some 91) (hfuel : 2 * s.left ≤ fuel) :
    Alike (fun _ => Passes s) (skipArray inner s)
      (s.skipNested 93 () fun s => s.skipItems fuel).outcome := by
  refine Alike.ensuring ?_ fun _ _ hpasses => hpasses.lt
  exact alike_nested skipItems_unfolds
    (fun fuel _ u hu hlt hfuel => alike_skipValueOnly hinner hu hlt hfuel) h hfuel

theorem alike_valueOver {inner : Scan Value} {fuel : Nat} (hinner : Nests s inner)
    (h : s.Within) (hfuel : 2 * s.left + 1 ≤ fuel) :
    Alike (fun _ => Passes s) (valueOver inner s) (s.parseValue fuel).outcome := by
  refine Alike.ensuring ?_ fun _ _ hpasses => hpasses.lt
  obtain ⟨fuel, rfl⟩ : ∃ less, fuel = less + 1 := ⟨fuel - 1, by omega⟩
  have hws := alike_skipWs h
  have hreaches : Reaches s s.skipWs := hws.post hws.eq
  have hle := hreaches.left_le
  have hinner' : Nests s.skipWs inner := fun fuel u hu hlt => hinner fuel u hu (by omega)
  rw [bind_apply, hws.eq, Outcome.ok_bind, bind_apply, peek_apply, Outcome.ok_bind,
    Scanner.parseValue]
  by_cases hstring : s.skipWs.peek = some 34
  · simp only [if_pos hstring]
    rw [bind_apply, outcome_bind]
    exact (alike_parseStringRaw hstring).bind fun _ t ht => .ok (hreaches.passes ht)
  simp only [if_neg hstring]
  by_cases hobject : s.skipWs.peek = some 123
  · simp only [if_pos hobject]
    rw [bind_apply, outcome_bind]
    exact (alike_skipObject hinner' hobject (by omega)).bind fun _ t ht => .ok (hreaches.passes ht)
  simp only [if_neg hobject]
  by_cases harray : s.skipWs.peek = some 91
  · simp only [if_pos harray]
    rw [bind_apply, outcome_bind]
    exact (alike_skipArray hinner' harray (by omega)).bind fun _ t ht => .ok (hreaches.passes ht)
  simp only [if_neg harray]
  by_cases hliteral : s.skipWs.peek = some 116 ∨ s.skipWs.peek = some 102 ∨
      s.skipWs.peek = some 110
  · simp only [if_pos hliteral]
    rw [bind_apply, outcome_bind]
    exact (alike_skipLiteral hreaches.within).bind fun _ t ht => .ok (hreaches.passes ht)
  simp only [if_neg hliteral]
  by_cases hnumber : s.skipWs.peek = some 45 ∨ s.skipWs.peek.any isDigit
  · simp only [if_pos hnumber]
    rw [bind_apply, outcome_bind]
    exact (alike_skipNumber hreaches.within).bind fun _ t ht => .ok (hreaches.passes ht)
  · simp only [if_neg hnumber]
    exact .error _

/-- Values nest at most as deep as bytes are left. -/
theorem alike_parseValue {depth fuel : Nat} (h : s.Within) (hdepth : s.left ≤ depth)
    (hfuel : 2 * s.left + 1 ≤ fuel) :
    Alike (fun _ => Passes s) (parseValue depth s) (s.parseValue fuel).outcome := by
  induction depth generalizing s fuel with
  | zero =>
    refine alike_valueOver (fun _ u _ hlt => ?_) h hfuel
    omega
  | succ depth ih => exact alike_valueOver (fun _ u hu hlt hfuel => ih hu (by omega) hfuel) h hfuel

/-! ## The status request -/

def plainRecord (fuel : Nat) (found : Option Text) (s : Scanner) : Scanned (Option Text) :=
  (plainKey s).bind fun key s => (s.parseValue fuel).bind fun value s =>
    match record found key value with
    | .error e => .error e
    | .ok found => .ok found s

theorem statusMembers_unfolds : Unfolds 125 plainRecord id statusMembers := by
  intro fuel found s
  rw [statusMembers, member_eq]
  unfold plainRecord
  simp only [bind_assoc]
  congr
  funext key s
  congr
  funext value s
  rw [Scanned.ok_bind]
  cases record found key value <;> rfl

theorem alike_statusMember {depth fuel : Nat} {found : Option Text} (h : s.Within)
    (hdepth : s.left ≤ depth) (hfuel : 2 * s.left + 1 ≤ fuel) :
    Alike (fun _ => Passes s) (statusMember depth found s) (plainRecord fuel found s).outcome := by
  unfold statusMember plainRecord
  rw [bind_apply, outcome_bind]
  refine (alike_memberKey h).bind fun key t ht => ?_
  have hlt := ht.left_lt
  rw [bind_apply, outcome_bind]
  refine (alike_parseValue ht.within (by omega) (by omega)).bind fun value u hu => ?_
  cases record found key value with
  | error e => exact .error e
  | ok found => exact .ok (ht.trans hu)

theorem result_atEnd {found : Option Text} (h : s.Within) :
    (atEnd found s).result = some (Mqtt.atEnd (.ok found s)) := by
  have hws := alike_skipWs h
  unfold atEnd Mqtt.atEnd
  rw [bind_apply, hws.eq, Outcome.ok_bind, bind_apply, get_apply, Outcome.ok_bind]
  by_cases hend : s.skipWs.pos = s.skipWs.bytes.length
  · simp only [hend, ne_eq, not_true_eq_false, if_false]
    cases statusOf found <;> rfl
  · simp only [hend, ne_eq, not_false_eq_true, if_true]
    rfl

theorem result_parseStatusRequest (payload : List UInt8) :
    (parseStatusRequest payload.length { bytes := payload, pos := 0 }).result =
      some (Mqtt.parseStatusRequest payload) := by
  have hwithin : Scanner.Within { bytes := payload, pos := 0 } := Nat.zero_le _
  have hws := alike_skipWs hwithin
  have hreaches := hws.post hws.eq
  have hle := hreaches.left_le
  have hleft : Scanner.left { bytes := payload, pos := 0 } = payload.length := Nat.sub_zero _
  unfold parseStatusRequest Mqtt.parseStatusRequest
  rw [bind_apply, hws.eq, Outcome.ok_bind, bind_apply, peek_apply, Outcome.ok_bind]
  generalize Scanner.skipWs { bytes := payload, pos := 0 } = s at hreaches hle
  by_cases hopen : s.peek = some 123
  · simp only [hopen, ne_eq, not_true_eq_false, if_false]
    rw [bind_apply]
    have hnested : Alike (fun _ => Passes s)
        (nested 125 none (statusMember payload.length) id none s)
        (s.skipNested 125 none (statusMembers (2 * payload.length + 2) none)).outcome :=
      alike_nested statusMembers_unfolds
        (fun fuel found u hu hlt hfuel => alike_statusMember hu (by omega) hfuel) hopen (by omega)
    rw [hnested.eq]
    cases hplain : s.skipNested 125 none (statusMembers (2 * payload.length + 2) none) with
    | ok found t =>
      rw [hplain] at hnested
      exact result_atEnd (hnested.post hnested.eq).within
    | error e => rfl
    | outOfFuel =>
      rw [hplain] at hnested
      exact absurd hnested.eq hnested.ne_fault
  · simp only [hopen, ne_eq, not_false_eq_true, if_true]
    rfl

/-- A scan from `s` makes no assertion fail and consumes a byte of the payload when it
succeeds. -/
structure Consumes (c : Scan α) (s : Scanner) : Prop where
  total : c s ≠ .fault
  passes : ∀ a t, c s = .ok a t → Passes s t

theorem consumes_of_alike {c : Scan α} {y : Outcome Scanner StatusRequestError α}
    (h : Alike (fun _ => Passes s) (c s) y) : Consumes c s :=
  ⟨h.ne_fault, fun _ _ hok => h.post hok⟩

/-- What the scans of a payload come to, where a value has room for as many values inside
one another as bytes are left. -/
structure Total (payload : List UInt8) : Prop where
  request : (parseStatusRequest payload.length { bytes := payload, pos := 0 }).result =
    some (Mqtt.parseStatusRequest payload)
  value : ∀ s, s.bytes = payload → s.Within → Consumes (parseValue s.left) s
  object : ∀ s, s.bytes = payload → s.peek = some 123 → Consumes (skipObject (parseValue s.left)) s
  array : ∀ s, s.bytes = payload → s.peek = some 91 → Consumes (skipArray (parseValue s.left)) s
  string : ∀ s, s.bytes = payload → s.peek = some 34 → Consumes parseStringRaw s
  literal : ∀ s, s.bytes = payload → s.Within → Consumes skipLiteral s
  number : ∀ s, s.bytes = payload → s.Within → Consumes skipNumber s

/-- No payload makes an assertion fail, whatever is nested in it and wherever it ends. -/
theorem scan_total (payload : List UInt8) : Total payload where
  request := result_parseStatusRequest payload
  value _ _ h := consumes_of_alike (alike_parseValue h le_rfl le_rfl)
  object s _ h :=
    have hnests : Nests s (parseValue s.left) := fun _ _ hu hlt hfuel =>
      alike_parseValue hu (Nat.le_of_lt hlt) hfuel
    consumes_of_alike (alike_skipObject hnests h le_rfl)
  array s _ h :=
    have hnests : Nests s (parseValue s.left) := fun _ _ hu hlt hfuel =>
      alike_parseValue hu (Nat.le_of_lt hlt) hfuel
    consumes_of_alike (alike_skipArray hnests h le_rfl)
  string _ _ h := consumes_of_alike (alike_parseStringRaw h)
  literal _ _ h := consumes_of_alike (alike_skipLiteral h)
  number _ _ h := consumes_of_alike (alike_skipNumber h)

end

end Scan

end Mqtt
end GarageDoor
