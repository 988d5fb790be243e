/-
What the scanner makes of whitespace, strings, literals and numbers.

A scanner is described by what is left to scan.  Soundness is stated as a triple: a
scan succeeds with a property of its result and of what it leaves, or reports an
error; it never runs out of fuel.
-/
import GarageDoor.Core.Mqtt.Scanner
import GarageDoor.Library.Json

namespace GarageDoor
namespace Mqtt

open Library Ascii Json

/-- The scanner is over `bytes` with `rest` left. -/
structure At (bytes : List UInt8) (s : Scanner) (rest : List UInt8) : Prop where
  bytes_eq : s.bytes = bytes
  le : s.pos ≤ bytes.length
  rest : bytes.drop s.pos = rest

/-- The scan ends with `P`, or finds the payload malformed or its `uuid` no string. -/
def Scans {α : Type} (bytes : List UInt8) (P : α → List UInt8 → Prop) : Scanned α → Prop
  | .ok a s => ∃ rest, At bytes s rest ∧ P a rest
  | .error e => e = .malformed ∨ e = .uuidNotString
  | .outOfFuel => False

section

variable {α β : Type} {bytes rest : List UInt8} {s : Scanner} {b : UInt8}

theorem Scans.bind {P : α → List UInt8 → Prop} {Q : β → List UInt8 → Prop} {x : Scanned α}
    {f : α → Scanner → Scanned β} (hx : Scans bytes P x)
    (hf : ∀ a s rest, At bytes s rest → P a rest → Scans bytes Q (f a s)) :
    Scans bytes Q (x.bind f) := by
  cases x with
  | ok a s =>
    obtain ⟨rest, hat, hP⟩ := hx
    exact hf a s rest hat hP
  | error e => exact hx
  | outOfFuel => exact hx

theorem Scans.mono {P Q : α → List UInt8 → Prop} {x : Scanned α} (hx : Scans bytes P x)
    (hPQ : ∀ a rest, P a rest → Q a rest) : Scans bytes Q x := by
  cases x with
  | ok a s =>
    obtain ⟨rest, hat, hP⟩ := hx
    exact ⟨rest, hat, hPQ a rest hP⟩
  | error e => exact hx
  | outOfFuel => exact hx

namespace At

theorem start (bytes : List UInt8) : At bytes { bytes := bytes, pos := 0 } bytes :=
  ⟨rfl, Nat.zero_le _, rfl⟩

theorem peek (h : At bytes s rest) : s.peek = rest.head? := by
  rw [← h.rest, List.head?_drop, Scanner.peek, h.bytes_eq]

theorem pos_add (h : At bytes s rest) : s.pos + rest.length = bytes.length := by
  have hle := h.le
  rw [← h.rest, List.length_drop]
  omega

theorem advance (h : At bytes s (b :: rest)) : At bytes s.advance rest := by
  have hpos := h.pos_add
  rw [List.length_cons] at hpos
  refine ⟨h.bytes_eq, by simp only [Scanner.advance]; omega, ?_⟩
  show bytes.drop (s.pos + 1) = rest
  rw [← List.drop_drop, h.rest, List.drop_one, List.tail_cons]

theorem next (h : At bytes s (b :: rest)) : s.next = some (b, s.advance) := by
  rw [Scanner.next, h.peek]
  rfl

theorem next_nil (h : At bytes s []) : s.next = none := by
  rw [Scanner.next, h.peek]
  rfl

/-- Some bytes further on. -/
theorem add {used : List UInt8} (h : At bytes s (used ++ rest)) :
    At bytes { s with pos := s.pos + used.length } rest := by
  have hpos := h.pos_add
  rw [List.length_append] at hpos
  refine ⟨h.bytes_eq, by simp only; omega, ?_⟩
  rw [← List.drop_drop, h.rest, List.drop_left]

theorem whileLoop (p : UInt8 → Bool) (h : At bytes s rest) :
    At bytes ((Scanner.whileLoop p).run s) (rest.dropWhile p) := by
  induction rest generalizing s with
  | nil =>
    have hexit : (Scanner.whileLoop p).body s = .inr s := by
      simp [Scanner.whileLoop, h.peek]
    rw [Loop.run_exit hexit]
    exact h
  | cons b rest ih =>
    by_cases hp : p b
    · have hnext : (Scanner.whileLoop p).body s = .inl s.advance := by
        simp [Scanner.whileLoop, h.peek, hp]
      rw [Loop.run_next hnext, List.dropWhile_cons_of_pos hp]
      exact ih h.advance
    · have hexit : (Scanner.whileLoop p).body s = .inr s := by
        simp [Scanner.whileLoop, h.peek, hp]
      rw [Loop.run_exit hexit, List.dropWhile_cons_of_neg hp]
      exact h

theorem skipWs (h : At bytes s rest) : At bytes s.skipWs (rest.dropWhile isWs) := h.whileLoop isWs

end At

/-! ## Whitespace -/

theorem isWs_iff : isWs b = true ↔ IsWs b := by
  simp only [isWs, Bool.or_eq_true, beq_iff_eq, IsWs]
  tauto

theorem isWs_eq_false (h : ¬ IsWs b) : isWs b = false := Bool.eq_false_iff.mpr (mt isWs_iff.mp h)

theorem ws_takeWhile (rest : List UInt8) : Ws (rest.takeWhile isWs) :=
  fun _ hb => isWs_iff.mp (List.mem_takeWhile_imp hb)

/-- The text goes on with something else than whitespace. -/
def Dense (rest : List UInt8) : Prop := ∀ b, rest.head? = some b → isWs b = false

theorem dropWhile_ws {w : List UInt8} (hw : Ws w) (hrest : Dense rest) :
    (w ++ rest).dropWhile isWs = rest := by
  rw [List.dropWhile_append_of_pos fun b hb => isWs_iff.mpr (hw b hb)]
  cases rest with
  | nil => rfl
  | cons b rest =>
    rw [List.dropWhile_cons_of_neg]
    simp [hrest b rfl]

/-- What is left determines the scanner. -/
theorem At.unique {s' : Scanner} (h : At bytes s rest) (h' : At bytes s' rest) : s = s' := by
  have hpos := h.pos_add
  have hpos' := h'.pos_add
  have hover := h.bytes_eq.trans h'.bytes_eq.symm
  cases s
  cases s'
  simp only [Scanner.mk.injEq] at hpos hpos' hover ⊢
  exact ⟨hover, by omega⟩

theorem At.skipWs_skipWs (h : At bytes s rest) : s.skipWs.skipWs = s.skipWs := by
  have hat := h.skipWs.skipWs
  rw [List.dropWhile_idempotent] at hat
  exact hat.unique h.skipWs

theorem At.skipWs_to {w : List UInt8} (h : At bytes s (w ++ rest)) (hw : Ws w)
    (hrest : Dense rest) : At bytes s.skipWs rest := by
  have hat := h.skipWs
  rwa [dropWhile_ws hw hrest] at hat

/-! ## Strings -/

/-- What may follow a backslash. -/
def EscapeText (e : Text) : Prop :=
  (∃ b ∈ simpleEscapes, e = [b]) ∨
    ∃ ds : Text, ds.length = 4 ∧ (∀ d ∈ ds, isHexDigit d = true) ∧ e = 117 :: ds

theorem EscapeText.characters {e : Text} (he : EscapeText e) : Characters (92 :: e) := by
  rcases he with ⟨b, hb, rfl⟩ | ⟨ds, hlength, hhex, rfl⟩
  · exact .escape hb .nil
  · have := Characters.unicode hlength hhex .nil
    rwa [List.append_nil] at this

theorem skipHex_sound {n : Nat} {s' : Scanner} (h : At bytes s rest)
    (hskip : Scanner.skipHex n s = some s') :
    ∃ ds after, ds.length = n ∧ (∀ d ∈ ds, isHexDigit d = true) ∧ rest = ds ++ after ∧
      At bytes s' after := by
  induction n generalizing s rest with
  | zero =>
    cases hskip
    exact ⟨[], rest, rfl, by simp, rfl, h⟩
  | succ n ih =>
    unfold Scanner.skipHex at hskip
    cases rest with
    | nil =>
      rw [h.next_nil] at hskip
      cases hskip
    | cons digit rest =>
      rw [h.next] at hskip
      by_cases hhex : isHexDigit digit
      · simp only [hhex, if_true] at hskip
        obtain ⟨ds, after, hlength, hall, rfl, hat⟩ := ih h.advance hskip
        refine ⟨digit :: ds, after, by rw [List.length_cons, hlength], ?_, rfl, hat⟩
        exact List.forall_mem_cons.mpr ⟨hhex, hall⟩
      · simp [hhex] at hskip

theorem skipHex_to {ds : Text} (h : At bytes s (ds ++ rest))
    (hhex : ∀ d ∈ ds, isHexDigit d = true) :
    ∃ s', Scanner.skipHex ds.length s = some s' ∧ At bytes s' rest := by
  induction ds generalizing s with
  | nil => exact ⟨s, rfl, h⟩
  | cons d ds ih =>
    obtain ⟨hd, hds⟩ := List.forall_mem_cons.mp hhex
    obtain ⟨s', hskip, hat⟩ := ih h.advance hds
    refine ⟨s', ?_, hat⟩
    have hnext : s.next = some (d, s.advance) := At.next h
    rw [List.length_cons, Scanner.skipHex, hnext]
    simp only [hd, if_true, hskip]

theorem skipEscape_sound {s' : Scanner} (h : At bytes s rest) (hskip : s.skipEscape = some s') :
    ∃ e after, EscapeText e ∧ rest = e ++ after ∧ At bytes s' after := by
  unfold Scanner.skipEscape at hskip
  cases rest with
  | nil =>
    rw [h.next_nil] at hskip
    cases hskip
  | cons b rest =>
    rw [h.next] at hskip
    simp only at hskip
    by_cases hsimple : b ∈ ([34, 92, 47, 98, 102, 110, 114, 116] : List UInt8)
    · rw [if_pos hsimple, Option.some.injEq] at hskip
      rw [← hskip]
      exact ⟨[b], rest, .inl ⟨b, hsimple, rfl⟩, rfl, h.advance⟩
    · rw [if_neg hsimple] at hskip
      by_cases hu : b = 117
      · subst hu
        rw [if_pos rfl] at hskip
        obtain ⟨ds, after, hlength, hhex, rfl, hat⟩ := skipHex_sound h.advance hskip
        exact ⟨117 :: ds, after, .inr ⟨ds, hlength, hhex, rfl⟩, rfl, hat⟩
      · rw [if_neg hu] at hskip
        cases hskip

theorem skipEscape_to {e : Text} (h : At bytes s (e ++ rest)) (he : EscapeText e) :
    ∃ s', s.skipEscape = some s' ∧ At bytes s' rest := by
  rcases he with ⟨b, hb, rfl⟩ | ⟨ds, hlength, hhex, rfl⟩
  · have hnext : s.next = some (b, s.advance) := At.next h
    refine ⟨s.advance, ?_, h.advance⟩
    rw [Scanner.skipEscape, hnext]
    exact if_pos hb
  · have hnext : s.next = some (117, s.advance) := At.next h
    obtain ⟨s', hskip, hat⟩ := skipHex_to h.advance hhex
    refine ⟨s', ?_, hat⟩
    rw [hlength] at hskip
    rw [Scanner.skipEscape, hnext]
    exact (if_neg (by decide)).trans ((if_pos rfl).trans hskip)

/-- The slice up to the quote is all that was passed over. -/
theorem slice_to_quote {s₀ : Scanner} {pre after : List UInt8}
    (h₀ : At bytes s₀ (pre ++ 34 :: after)) (h : At bytes s (34 :: after)) :
    s.advance.slice s₀.pos (s.advance.pos - 1) = pre := by
  have hpos₀ := h₀.pos_add
  have hpos := h.pos_add
  simp only [List.length_append, List.length_cons] at hpos₀ hpos
  have hlength : s.advance.pos - 1 - s₀.pos = pre.length := by
    simp only [Scanner.advance]
    omega
  rw [Scanner.slice, hlength, h.advance.bytes_eq, h₀.rest, List.take_left]

/-- One round over a string: it ends at the quote, or another character is passed. -/
theorem stringStep_cases {s₀ : Scanner} {pre rest : List UInt8}
    (h₀ : At bytes s₀ (pre ++ rest)) (hpre : Characters pre) (h : At bytes s rest) :
    (∃ s', Scanner.stringStep s₀.pos s = .inl s' ∧ ∃ pre' rest', pre ++ rest = pre' ++ rest' ∧
      Characters pre' ∧ At bytes s' rest') ∨
    (∃ x, Scanner.stringStep s₀.pos s = .inr x ∧
      Scans bytes (fun raw after => StringBody raw ∧ pre ++ rest = raw ++ 34 :: after) x) := by
  unfold Scanner.stringStep
  cases rest with
  | nil =>
    rw [h.next_nil]
    exact .inr ⟨_, rfl, .inl rfl⟩
  | cons b rest =>
    rw [h.next]
    simp only
    by_cases hquote : b = 34
    · subst hquote
      rw [if_pos rfl, slice_to_quote h₀ h]
      unfold fromUtf8
      by_cases hutf8 : ValidUtf8 pre
      · rw [if_pos hutf8]
        exact .inr ⟨_, rfl, rest, h.advance, ⟨hpre, hutf8⟩, rfl⟩
      · rw [if_neg hutf8]
        exact .inr ⟨_, rfl, .inl rfl⟩
    rw [if_neg hquote]
    by_cases hbackslash : b = 92
    · subst hbackslash
      rw [if_pos rfl]
      cases hescape : s.advance.skipEscape with
      | none => exact .inr ⟨_, rfl, .inl rfl⟩
      | some s' =>
        obtain ⟨e, after, he, rfl, hat⟩ := skipEscape_sound h.advance hescape
        exact .inl ⟨s', rfl, pre ++ 92 :: e, after, by simp, hpre.append he.characters, hat⟩
    rw [if_neg hbackslash]
    by_cases hcontrol : b < 32
    · rw [if_pos hcontrol]
      exact .inr ⟨_, rfl, .inl rfl⟩
    · rw [if_neg hcontrol]
      have hplain : Characters [b] :=
        .plain (UInt8.not_lt.mp hcontrol) hquote hbackslash .nil
      exact .inl ⟨_, rfl, pre ++ [b], rest, by simp, hpre.append hplain, h.advance⟩

theorem parseStringRaw_scans (h : At bytes s (34 :: rest)) :
    Scans bytes (fun raw after => StringBody raw ∧ 34 :: rest = quoted raw ++ after)
      s.parseStringRaw := by
  have hloop : Scans bytes (fun raw after => StringBody raw ∧ rest = raw ++ 34 :: after)
      s.parseStringRaw := by
    refine Loop.run_step_rule (l := Scanner.stringLoop (s.pos + 1))
      (I := fun t => ∃ pre after, rest = pre ++ after ∧ Characters pre ∧ At bytes t after)
      ⟨[], rest, rfl, .nil, h.advance⟩ fun {t} ht => ?_
    obtain ⟨pre, after, hsplit, hpre, hat⟩ := ht
    rw [hsplit]
    exact stringStep_cases (hsplit ▸ h.advance) hpre hat
  refine hloop.mono fun raw after hraw => ⟨hraw.1, ?_⟩
  rw [hraw.2, quoted]
  simp

theorem stringLoop_to {s₀ : Scanner} (pre : Text) {raw : Text} (hraw : Characters raw)
    (h₀ : At bytes s₀ (pre ++ (raw ++ 34 :: rest))) (h : At bytes s (raw ++ 34 :: rest))
    (hutf8 : ValidUtf8 (pre ++ raw)) :
    ∃ s', (Scanner.stringLoop s₀.pos).run s = .ok (pre ++ raw) s' ∧ At bytes s' rest := by
  induction hraw generalizing s pre with
  | nil =>
    rw [List.append_nil] at hutf8 ⊢
    refine ⟨s.advance, Loop.run_exit ?_, h.advance⟩
    have hnext : s.next = some (34, s.advance) := At.next h
    show Scanner.stringStep s₀.pos s = _
    simp only [Scanner.stringStep, hnext, if_true, slice_to_quote h₀ h, fromUtf8_of_valid hutf8]
  | @plain b raw hcontrol hquote hbackslash _ ih =>
    have hnext : s.next = some (b, s.advance) := At.next h
    have hstep : (Scanner.stringLoop s₀.pos).body s = .inl s.advance := by
      show Scanner.stringStep s₀.pos s = _
      simp only [Scanner.stringStep, hnext, if_neg hquote, if_neg hbackslash,
        if_neg (UInt8.not_lt.mpr hcontrol)]
    rw [Loop.run_next hstep, List.append_cons]
    rw [List.append_cons] at hutf8
    refine ih _ ?_ h.advance hutf8
    simpa using h₀
  | @escape b raw hb _ ih =>
    have hnext : s.next = some (92, s.advance) := At.next h
    obtain ⟨s', hskip, hat⟩ := skipEscape_to (e := [b]) h.advance (.inl ⟨b, hb, rfl⟩)
    have hstep : (Scanner.stringLoop s₀.pos).body s = .inl s' := by
      show Scanner.stringStep s₀.pos s = _
      simp [Scanner.stringStep, hnext, hskip]
    have happend : pre ++ 92 :: b :: raw = (pre ++ [92, b]) ++ raw := by simp
    rw [Loop.run_next hstep, happend]
    rw [happend] at hutf8
    refine ih _ ?_ hat hutf8
    simpa using h₀
  | @unicode ds raw hlength hhex _ ih =>
    have hnext : s.next = some (92, s.advance) := At.next h
    have hadvance : At bytes s.advance ((117 :: ds) ++ (raw ++ 34 :: rest)) := by
      simpa [List.append_assoc] using h.advance
    obtain ⟨s', hskip, hat⟩ := skipEscape_to hadvance (.inr ⟨ds, hlength, hhex, rfl⟩)
    have hstep : (Scanner.stringLoop s₀.pos).body s = .inl s' := by
      show Scanner.stringStep s₀.pos s = _
      simp [Scanner.stringStep, hnext, hskip]
    have happend : pre ++ 92 :: 117 :: (ds ++ raw) = (pre ++ 92 :: 117 :: ds) ++ raw := by simp
    rw [Loop.run_next hstep, happend]
    rw [happend] at hutf8
    refine ih _ ?_ hat hutf8
    simpa using h₀

theorem parseStringRaw_to {raw : Text} (h : At bytes s (quoted raw ++ rest))
    (hraw : StringBody raw) : ∃ s', s.parseStringRaw = .ok raw s' ∧ At bytes s' rest := by
  have hadvance : At bytes s.advance (raw ++ 34 :: rest) := by
    have hquoted : At bytes s (34 :: (raw ++ 34 :: rest)) := by
      simpa [quoted] using h
    exact hquoted.advance
  exact stringLoop_to [] hraw.characters hadvance hadvance hraw.utf8

/-! ## Numbers and literals -/

def NoDigit (rest : List UInt8) : Prop := ∀ b, rest.head? = some b → isDigit b = false

theorem requireDigits_eq (h : At bytes s rest) :
    s.requireDigits =
      if rest.takeWhile isDigit = [] then .error .malformed
      else .ok () ((Scanner.whileLoop isDigit).run s) := by
  have hpos := h.pos_add
  have hpos' := (h.whileLoop isDigit).pos_add
  have hlength := congrArg List.length (List.takeWhile_append_dropWhile (p := isDigit) (l := rest))
  rw [List.length_append] at hlength
  simp only [Scanner.requireDigits, Scanner.skipDigits]
  by_cases hnone : rest.takeWhile isDigit = []
  · rw [hnone, List.length_nil] at hlength
    simp only [hnone, if_true, show ¬ s.pos < ((Scanner.whileLoop isDigit).run s).pos by omega,
      decide_false]
  · have := List.length_pos_iff.mpr hnone
    simp only [hnone, if_false, show s.pos < ((Scanner.whileLoop isDigit).run s).pos by omega,
      decide_true]

theorem requireDigits_scans (h : At bytes s rest) :
    Scans bytes (fun _ after => ∃ ds, Digits ds ∧ rest = ds ++ after) s.requireDigits := by
  rw [requireDigits_eq h]
  by_cases hnone : rest.takeWhile isDigit = []
  · rw [if_pos hnone]
    exact .inl rfl
  · rw [if_neg hnone]
    exact ⟨_, h.whileLoop isDigit, _, ⟨hnone, fun _ hd => List.mem_takeWhile_imp hd⟩,
      List.takeWhile_append_dropWhile.symm⟩

theorem requireDigits_to {ds : Text} (h : At bytes s (ds ++ rest)) (hds : Digits ds)
    (hrest : NoDigit rest) : ∃ s', s.requireDigits = .ok () s' ∧ At bytes s' rest := by
  have htake : rest.takeWhile isDigit = [] := by
    cases rest with
    | nil => rfl
    | cons b rest => simp [hrest b rfl]
  have hdrop : rest.dropWhile isDigit = rest := by
    cases rest with
    | nil => rfl
    | cons b rest => simp [hrest b rfl]
  have hat := h.whileLoop isDigit
  rw [List.dropWhile_append_of_pos hds.2, hdrop] at hat
  refine ⟨_, ?_, hat⟩
  rw [requireDigits_eq h, List.takeWhile_append_of_pos hds.2, htake, List.append_nil,
    if_neg hds.1]

theorem skipFraction_scans (h : At bytes s rest) :
    Scans bytes (fun _ after => ∃ f, Fraction f ∧ rest = f ++ after) s.skipFraction := by
  unfold Scanner.skipFraction
  rw [h.peek]
  cases rest with
  | nil => exact ⟨_, h, [], .inl rfl, rfl⟩
  | cons b rest =>
    by_cases hpoint : b = 46
    · subst hpoint
      rw [List.head?_cons, if_pos rfl]
      refine (requireDigits_scans h.advance).mono fun _ after hafter => ?_
      obtain ⟨ds, hds, rfl⟩ := hafter
      exact ⟨46 :: ds, .inr ⟨ds, hds, rfl⟩, rfl⟩
    · rw [List.head?_cons, if_neg (by simpa using hpoint)]
      exact ⟨_, h, [], .inl rfl, rfl⟩

theorem skipFraction_to {f : Text} (h : At bytes s (f ++ rest)) (hf : Fraction f)
    (hrest : NoDigit rest) (hpoint : rest.head? ≠ some 46) :
    ∃ s', s.skipFraction = .ok () s' ∧ At bytes s' rest := by
  unfold Scanner.skipFraction
  rw [h.peek]
  rcases hf with rfl | ⟨ds, hds, rfl⟩
  · rw [if_neg (by simpa using hpoint)]
    exact ⟨s, rfl, h⟩
  · rw [List.cons_append, List.head?_cons, if_pos rfl]
    exact requireDigits_to h.advance hds hrest

/-- A sign, if there is one. -/
theorem exponent_sign (h : At bytes s rest) :
    ∃ sign after, (sign = [] ∨ sign = [43] ∨ sign = [45]) ∧ rest = sign ++ after ∧
      At bytes (if s.peek = some 43 ∨ s.peek = some 45 then s.advance else s) after := by
  rw [h.peek]
  cases rest with
  | nil => exact ⟨[], [], .inl rfl, rfl, by simpa using h⟩
  | cons b rest =>
    by_cases hplus : b = 43
    · subst hplus
      exact ⟨[43], rest, .inr (.inl rfl), rfl, by simpa using h.advance⟩
    · by_cases hminus : b = 45
      · subst hminus
        exact ⟨[45], rest, .inr (.inr rfl), rfl, by simpa using h.advance⟩
      · exact ⟨[], b :: rest, .inl rfl, rfl, by simpa [hplus, hminus] using h⟩

theorem skipExponent_scans (h : At bytes s rest) :
    Scans bytes (fun _ after => ∃ e, Exponent e ∧ rest = e ++ after) s.skipExponent := by
  unfold Scanner.skipExponent
  rw [h.peek]
  cases rest with
  | nil => exact ⟨_, h, [], .inl rfl, rfl⟩
  | cons b rest =>
    by_cases hmark : b = 101 ∨ b = 69
    · rw [List.head?_cons, if_pos (by simpa using hmark)]
      obtain ⟨sign, after, hsign, rfl, hat⟩ := exponent_sign h.advance
      refine (requireDigits_scans hat).mono fun _ after hafter => ?_
      obtain ⟨ds, hds, rfl⟩ := hafter
      exact ⟨b :: (sign ++ ds), .inr ⟨b, sign, ds, hmark, hsign, hds, rfl⟩, by simp⟩
    · rw [List.head?_cons, if_neg (by simpa using hmark)]
      exact ⟨_, h, [], .inl rfl, rfl⟩

theorem not_sign_of_digits {ds : Text} (hds : Digits ds) (rest : List UInt8) :
    (ds ++ rest).head? ≠ some 43 ∧ (ds ++ rest).head? ≠ some 45 := by
  obtain ⟨hne, hall⟩ := hds
  cases ds with
  | nil => exact absurd rfl hne
  | cons d ds =>
    have hd := hall d List.mem_cons_self
    refine ⟨?_, ?_⟩
    · intro h
      cases h
      exact absurd hd (by decide)
    · intro h
      cases h
      exact absurd hd (by decide)

theorem skipExponent_to {e : Text} (h : At bytes s (e ++ rest)) (he : Exponent e)
    (hrest : NoDigit rest) (hmark : rest.head? ≠ some 101 ∧ rest.head? ≠ some 69) :
    ∃ s', s.skipExponent = .ok () s' ∧ At bytes s' rest := by
  unfold Scanner.skipExponent
  rw [h.peek]
  rcases he with rfl | ⟨mark, sign, ds, hmark', hsign, hds, rfl⟩
  · rw [if_neg (by simpa using hmark)]
    exact ⟨s, rfl, h⟩
  · rw [if_pos (by simpa using hmark')]
    have hat : At bytes s.advance (sign ++ (ds ++ rest)) := by
      simpa [List.append_assoc] using h.advance
    have hsigned : At bytes (if s.advance.peek = some 43 ∨ s.advance.peek = some 45 then
        s.advance.advance else s.advance) (ds ++ rest) := by
      rw [hat.peek]
      rcases hsign with rfl | rfl | rfl
      · rw [List.nil_append, if_neg (not_or.mpr (not_sign_of_digits hds rest))]
        exact hat
      · rw [if_pos (.inl rfl)]
        exact hat.advance
      · rw [if_pos (.inr rfl)]
        exact hat.advance
    exact requireDigits_to hsigned hds hrest

/-- The text does not go on with what could belong to a number. -/
def Stops (rest : List UInt8) : Prop :=
  NoDigit rest ∧ rest.head? ≠ some 46 ∧ rest.head? ≠ some 101 ∧ rest.head? ≠ some 69

theorem skipNumber_scans (h : At bytes s rest) :
    Scans bytes (fun _ after => ∃ n, NumberText n ∧ rest = n ++ after) s.skipNumber := by
  have hsigned : ∃ sign after, (sign = [] ∨ sign = [45]) ∧ rest = sign ++ after ∧
      At bytes (if s.peek = some 45 then s.advance else s) after := by
    rw [h.peek]
    cases rest with
    | nil => exact ⟨[], [], .inl rfl, rfl, by simpa using h⟩
    | cons b rest =>
      by_cases hminus : b = 45
      · subst hminus
        exact ⟨[45], rest, .inr rfl, rfl, by simpa using h.advance⟩
      · exact ⟨[], b :: rest, .inl rfl, rfl, by simpa [hminus] using h⟩
  obtain ⟨sign, after, hsign, rfl, hat⟩ := hsigned
  refine (requireDigits_scans hat).bind fun _ s₁ r₁ hat₁ hds => ?_
  refine (skipFraction_scans hat₁).bind fun _ s₂ r₂ hat₂ hf => ?_
  refine (skipExponent_scans hat₂).mono fun _ r₃ he => ?_
  obtain ⟨ds, hds, rfl⟩ := hds
  obtain ⟨f, hf, rfl⟩ := hf
  obtain ⟨e, he, rfl⟩ := he
  exact ⟨sign ++ ds ++ f ++ e, ⟨sign, ds, f, e, hsign, hds, hf, he, rfl⟩, by simp⟩

/-- Neither a digit nor a point comes after an exponent that is left out. -/
theorem exponent_stops {e : Text} (he : Exponent e) (hrest : Stops rest) :
    NoDigit (e ++ rest) ∧ (e ++ rest).head? ≠ some 46 := by
  rcases he with rfl | ⟨mark, sign, ds, rfl | rfl, -, -, rfl⟩
  · exact ⟨hrest.1, hrest.2.1⟩
  · exact ⟨by intro b hb; cases hb; rfl, by simp⟩
  · exact ⟨by intro b hb; cases hb; rfl, by simp⟩

theorem fraction_stops {f : Text} (hf : Fraction f) (hrest : NoDigit rest) :
    NoDigit (f ++ rest) := by
  rcases hf with rfl | ⟨ds, -, rfl⟩
  · exact hrest
  · intro b hb
    cases hb
    rfl

theorem skipNumber_to {n : Text} (h : At bytes s (n ++ rest)) (hn : NumberText n)
    (hrest : Stops rest) : ∃ s', s.skipNumber = .ok () s' ∧ At bytes s' rest := by
  obtain ⟨sign, ds, f, e, hsign, hds, hf, he, rfl⟩ := hn
  have hat : At bytes s (sign ++ (ds ++ (f ++ (e ++ rest)))) := by
    simpa [List.append_assoc] using h
  have hsigned : At bytes (if s.peek = some 45 then s.advance else s)
      (ds ++ (f ++ (e ++ rest))) := by
    rw [hat.peek]
    rcases hsign with rfl | rfl
    · rw [List.nil_append, if_neg (not_sign_of_digits hds _).2]
      exact hat
    · rw [List.singleton_append, List.head?_cons, if_pos rfl]
      exact hat.advance
  obtain ⟨hdigit, hpoint⟩ := exponent_stops he hrest
  obtain ⟨s₁, hs₁, hat₁⟩ := requireDigits_to hsigned hds (fraction_stops hf hdigit)
  obtain ⟨s₂, hs₂, hat₂⟩ := skipFraction_to hat₁ hf hdigit hpoint
  obtain ⟨s₃, hs₃, hat₃⟩ := skipExponent_to hat₂ he hrest.1 hrest.2.2
  refine ⟨s₃, ?_, hat₃⟩
  simp only [Scanner.skipNumber, hs₁, Scanned.ok_bind, hs₂, hs₃]

theorem skipLiteral_scans (h : At bytes s rest) :
    Scans bytes (fun _ after => ∃ l ∈ literals, rest = l ++ after) s.skipLiteral := by
  simp only [Scanner.skipLiteral, h.bytes_eq, h.rest]
  cases hfind : literals.find? fun literal => literal.isPrefixOf rest with
  | none =>
    rw [show ([text "true", text "false", text "null"] : List Text) = literals from rfl, hfind]
    exact .inl rfl
  | some l =>
    rw [show ([text "true", text "false", text "null"] : List Text) = literals from rfl, hfind]
    have hpre := List.find?_some hfind
    obtain ⟨after, rfl⟩ := List.isPrefixOf_iff_prefix.mp hpre
    exact ⟨after, h.bytes_eq ▸ h.add, l, List.mem_of_find?_eq_some hfind, rfl⟩

theorem skipLiteral_to {l : Text} (h : At bytes s (l ++ rest)) (hl : l ∈ literals) :
    ∃ s', s.skipLiteral = .ok () s' ∧ At bytes s' rest := by
  have hfind : literals.find? (fun literal => literal.isPrefixOf (l ++ rest)) = some l := by
    simp only [literals, List.mem_cons, List.not_mem_nil, or_false] at hl
    rcases hl with rfl | rfl | rfl <;> rfl
  refine ⟨_, ?_, h.add⟩
  simp only [Scanner.skipLiteral, h.bytes_eq, h.rest]
  rw [show ([text "true", text "false", text "null"] : List Text) = literals from rfl, hfind]

end

end Mqtt
end GarageDoor
