/-
The checked scanner behaves as the plain one on strings, literals and numbers.
-/
import GarageDoor.Core.Mqtt.Checked

namespace GarageDoor
namespace Mqtt

open Library Ascii

/-! ## Whitespace and strings -/

/-- A plain scan as an outcome; to run out of fuel is a fault. -/
def Scanned.outcome {α : Type} : Scanned α → Outcome Scanner StatusRequestError α
  | .ok a s => .ok a s
  | .error e => .error e
  | .outOfFuel => .fault

namespace Scan

open Checked

section

variable {α β τ : Type} {s : Scanner} {b : UInt8}

theorem outcome_bind (x : Scanned α) (f : α → Scanner → Scanned β) :
    (x.bind f).outcome = x.outcome.bind fun a s => (f a s).outcome := by cases x <;> rfl

theorem consume_apply {n : Nat} (h : s.pos + n ≤ s.bytes.length) :
    consume n s = .ok () { s with pos := s.pos + n } := by
  show (check (s.pos + n ≤ s.bytes.length) s).bind _ = _
  rw [check_apply h]
  rfl

theorem advance_apply (h : s.peek = some b) : advance s = .ok () s.advance :=
  consume_apply (Scanner.lt_of_peek h)

@[simp] theorem peek_apply (s : Scanner) : peek s = .ok s.peek s := rfl

theorem nextByte_none (h : s.peek = none) : nextByte s = .error .malformed := by
  simp [nextByte, next, h]

theorem nextByte_some (h : s.peek = some b) : nextByte s = .ok b s.advance := by
  simp [nextByte, next, h, advance_apply h]

theorem alike_skipWhile (p : UInt8 → Bool) (h : s.Within) :
    Alike (fun _ => Reaches s) (skipWhile p s) (.ok () ((Scanner.whileLoop p).run s)) := by
  refine Alike.loop (I := fun _ t => Reaches s t ∧
    (Scanner.whileLoop p).run t = (Scanner.whileLoop p).run s) ⟨.refl h, rfl⟩ ?_
  intro _ t ⟨hreaches, hrun⟩
  by_cases hp : t.peek.any p
  · obtain ⟨b, hpeek⟩ : ∃ b, t.peek = some b := by
      cases hpeek : t.peek with
      | none => simp [hpeek] at hp
      | some b => exact ⟨b, rfl⟩
    have hpasses := passes_advance hpeek
    have hround : (Scanner.whileLoop p).run t = (Scanner.whileLoop p).run t.advance :=
      Loop.run_next (if_pos hp)
    simp only [bind_apply, peek_apply, Outcome.ok_bind, hp, if_true, advance_apply hpeek,
      pure_apply]
    exact .again hpasses.left_lt ⟨hreaches.trans hpasses.toReaches, hround.symm.trans hrun⟩
  · have hround : (Scanner.whileLoop p).run t = t := Loop.run_exit (if_neg hp)
    rw [bind_apply, peek_apply, Outcome.ok_bind, if_neg hp]
    exact .leave (by rw [← hrun, hround]) hreaches

theorem alike_skipWs (h : s.Within) :
    Alike (fun _ => Reaches s) (skipWs s) (.ok () s.skipWs) :=
  alike_skipWhile isWs h

/-- An optional scanner as an outcome. -/
def ofOption : Option Scanner → Outcome Scanner StatusRequestError Unit
  | none => .error .malformed
  | some s => .ok () s

/-- What follows a byte, where there is one. -/
theorem alike_nextByte {Q : α → Scanner → Prop} {f : UInt8 → Scan α}
    {y : Outcome Scanner StatusRequestError α} (hnone : s.peek = none → y = .error .malformed)
    (hsome : ∀ b, s.peek = some b → Alike Q (f b s.advance) y) :
    Alike Q ((nextByte >>= f) s) y := by
  rw [bind_apply]
  cases hpeek : s.peek with
  | none =>
    rw [nextByte_none hpeek, hnone hpeek]
    exact .error _
  | some b =>
    rw [nextByte_some hpeek]
    exact hsome b hpeek

theorem alike_skipHex (n : Nat) (h : s.Within) :
    Alike (fun _ => Reaches s) (skipHex n s) (ofOption (s.skipHex n)) := by
  induction n generalizing s with
  | zero => exact .ok (.refl h)
  | succ n ih =>
    unfold skipHex Scanner.skipHex Scanner.next
    refine alike_nextByte (fun hpeek => by rw [hpeek]; rfl) fun digit hpeek => ?_
    have hpasses := passes_advance hpeek
    rw [hpeek]
    by_cases hhex : isHexDigit digit
    · simp only [hhex, if_true]
      exact (ih hpasses.within).mono fun _ t ht => hpasses.toReaches.trans ht
    · simp only [hhex]
      exact .error _

theorem alike_skipEscape (s : Scanner) :
    Alike (fun _ => Reaches s) (skipEscape s) (ofOption s.skipEscape) := by
  unfold skipEscape Scanner.skipEscape Scanner.next
  refine alike_nextByte (fun hpeek => by rw [hpeek]; rfl) fun b hpeek => ?_
  have hpasses := passes_advance hpeek
  rw [hpeek]
  by_cases hsimple : b ∈ [34, 92, 47, 98, 102, 110, 114, 116]
  · simp only [if_pos hsimple]
    exact .ok hpasses.toReaches
  · simp only [if_neg hsimple]
    by_cases hu : b = 117
    · simp only [if_pos hu]
      exact (alike_skipHex 4 hpasses.within).mono fun _ t ht => hpasses.toReaches.trans ht
    · simp only [if_neg hu]
      exact .error _

theorem slice_apply {start stop : Nat} (hstart : start ≤ stop) (hstop : stop ≤ s.bytes.length) :
    slice start stop s = .ok (s.slice start stop) s := by
  show (check (start ≤ stop ∧ stop ≤ s.bytes.length) s).bind _ = _
  rw [check_apply ⟨hstart, hstop⟩]
  rfl

/-- A round of the plain loop as an outcome. -/
def ofStep : Scanner ⊕ Scanned α → Outcome Scanner StatusRequestError (Unit ⊕ α)
  | .inl s => .ok (.inl ()) s
  | .inr x => x.outcome.bind fun a s => .ok (.inr a) s

theorem alike_stringRound {start : Nat} (hstart : start ≤ s.pos) :
    Alike (fun _ => Passes s) (stringRound start s) (ofStep (Scanner.stringStep start s)) := by
  unfold stringRound Scanner.stringStep Scanner.next
  refine alike_nextByte (fun hpeek => by rw [hpeek]; rfl) fun b hpeek => ?_
  have hpasses := passes_advance hpeek
  rw [hpeek]
  by_cases hquote : b = 34
  · -- the body ends before the quote that was just read
    have hpos : 1 ≤ s.advance.pos := Nat.succ_pos _
    have hslice : slice start (s.advance.pos - 1) s.advance =
        .ok (s.advance.slice start (s.advance.pos - 1)) s.advance :=
      slice_apply hstart (Nat.le_of_lt hpasses.within)
    simp only [if_pos hquote]
    rw [bind_apply, get_apply, Outcome.ok_bind, bind_apply, check_apply hpos, Outcome.ok_bind,
      bind_apply, hslice, Outcome.ok_bind]
    cases fromUtf8 (s.advance.slice start (s.advance.pos - 1)) with
    | none => exact .error _
    | some raw => exact .ok hpasses
  simp only [if_neg hquote]
  by_cases hbackslash : b = 92
  · simp only [if_pos hbackslash]
    have hescape := alike_skipEscape s.advance
    cases hplain : s.advance.skipEscape with
    | none =>
      rw [hplain] at hescape
      rw [bind_apply, hescape.eq]
      exact .error _
    | some t =>
      rw [hplain] at hescape
      rw [bind_apply, hescape.eq]
      exact .ok (hpasses.reaches (hescape.post hescape.eq))
  simp only [if_neg hbackslash]
  by_cases hcontrol : b < 32
  · simp only [if_pos hcontrol]
    exact .error _
  · simp only [if_neg hcontrol]
    exact .ok hpasses

theorem alike_parseStringRaw (h : s.peek = some 34) :
    Alike (fun _ => Passes s) (parseStringRaw s) s.parseStringRaw.outcome := by
  have hopen := passes_advance h
  refine Alike.ensuring ?_ fun _ _ hpasses => hpasses.lt
  rw [bind_apply, advance_apply h]
  show Alike _ (loop (fun _ => stringRound (s.pos + 1)) () s.advance) _
  refine Alike.loop (I := fun _ t => Passes s t ∧
    ((Scanner.stringLoop (s.pos + 1)).run t).outcome = s.parseStringRaw.outcome) ⟨hopen, rfl⟩ ?_
  intro _ t ⟨hpasses, hrun⟩
  have hround : Alike _ (stringRound (s.pos + 1) t) _ := alike_stringRound hpasses.lt
  cases hstep : Scanner.stringStep (s.pos + 1) t with
  | inl t' =>
    rw [hstep] at hround
    rw [hround.eq]
    have hpasses' := hround.post hround.eq
    have hnext : (Scanner.stringLoop (s.pos + 1)).run t =
        (Scanner.stringLoop (s.pos + 1)).run t' := Loop.run_next hstep
    exact .again hpasses'.left_lt ⟨hpasses.trans hpasses', by rw [← hnext, hrun]⟩
  | inr x =>
    rw [hstep] at hround
    have hexit : (Scanner.stringLoop (s.pos + 1)).run t = x := Loop.run_exit hstep
    rw [hexit] at hrun
    rw [hround.eq]
    cases x with
    | ok raw t' => exact .leave hrun.symm (hpasses.trans (hround.post hround.eq))
    | error e => exact .error hrun.symm
    | outOfFuel => exact absurd hround.eq hround.ne_fault

/-! ## Literals and numbers -/

theorem rest_apply (h : s.Within) : rest s = .ok (s.bytes.drop s.pos) s := by
  have hle : s.pos ≤ s.bytes.length := h
  show (check (s.pos ≤ s.bytes.length) s).bind _ = _
  rw [check_apply hle]
  rfl

theorem alike_skipLiteralOf {literals : List Text} (h : s.Within)
    (hne : ∀ literal ∈ literals, literal ≠ []) :
    Alike (fun _ => Passes s) (skipLiteralOf literals s)
      (match literals.find? fun literal => literal.isPrefixOf (s.bytes.drop s.pos) with
        | some literal => .ok () { s with pos := s.pos + literal.length }
        | none => .error .malformed) := by
  induction literals with
  | nil => exact .error _
  | cons literal literals ih =>
    have hcons := List.forall_mem_cons.mp hne
    rw [skipLiteralOf, bind_apply, rest_apply h, Outcome.ok_bind, List.find?_cons]
    cases hprefix : literal.isPrefixOf (s.bytes.drop s.pos) with
    | true =>
      have hlength := (List.isPrefixOf_iff_prefix.mp hprefix).length_le
      have hpos : 0 < literal.length := List.length_pos_iff.mpr hcons.1
      rw [List.length_drop] at hlength
      have hend : s.pos + literal.length ≤ s.bytes.length := by omega
      rw [if_pos rfl, consume_apply hend]
      exact .ok ⟨⟨rfl, Nat.le_add_right _ _, hend⟩, Nat.lt_add_of_pos_right hpos⟩
    | false =>
      rw [if_neg Bool.false_ne_true]
      exact ih hcons.2

theorem alike_skipLiteral (h : s.Within) :
    Alike (fun _ => Passes s) (skipLiteral s) s.skipLiteral.outcome := by
  refine Alike.ensuring ?_ fun _ _ hpasses => hpasses.lt
  have hne : ∀ literal ∈ [text "true", text "false", text "null"], literal ≠ [] := by decide
  have hliterals := alike_skipLiteralOf h hne
  unfold Scanner.skipLiteral
  cases hfind : [text "true", text "false", text "null"].find? fun literal =>
      literal.isPrefixOf (s.bytes.drop s.pos) <;> rw [hfind] at hliterals <;> exact hliterals

theorem alike_requireDigits (h : s.Within) :
    Alike (fun _ => Passes s) (requireDigits s) s.requireDigits.outcome := by
  have hdigits := alike_skipWhile isDigit h
  have hskip : skipDigits s = .ok s.skipDigits.1 s.skipDigits.2 := by
    show (skipWhile isDigit s).bind _ = _
    rw [hdigits.eq]
    rfl
  have hreaches : Reaches s s.skipDigits.2 := hdigits.post hdigits.eq
  have hany : s.skipDigits.1 = decide (s.pos < s.skipDigits.2.pos) := rfl
  unfold requireDigits Scanner.requireDigits
  rw [bind_apply, hskip]
  generalize s.skipDigits = skipped at hreaches hany
  obtain ⟨any, t⟩ := skipped
  cases any with
  | true => exact .ok ⟨hreaches, of_decide_eq_true hany.symm⟩
  | false => exact .error _

theorem skipIf_apply {p : Option UInt8 → Prop} [DecidablePred p] (hp : ¬ p none) :
    skipIf p s = .ok () (if p s.peek then s.advance else s) := by
  unfold skipIf
  rw [bind_apply, peek_apply, Outcome.ok_bind]
  by_cases hpeek : p s.peek
  · obtain ⟨b, hb⟩ : ∃ b, s.peek = some b := by
      cases hb : s.peek with
      | none => exact absurd (hb ▸ hpeek) hp
      | some b => exact ⟨b, rfl⟩
    rw [if_pos hpeek, if_pos hpeek, advance_apply hb]
  · rw [if_neg hpeek, if_neg hpeek]
    rfl

theorem alike_skipFraction (h : s.Within) :
    Alike (fun _ => Reaches s) (skipFraction s) s.skipFraction.outcome := by
  unfold skipFraction Scanner.skipFraction
  rw [bind_apply, peek_apply, Outcome.ok_bind]
  by_cases hpeek : s.peek = some 46
  · have hpasses := passes_advance hpeek
    rw [if_pos hpeek, if_pos hpeek, bind_apply, advance_apply hpeek]
    exact (alike_requireDigits hpasses.within).mono fun _ t ht =>
      (hpasses.trans ht).toReaches
  · rw [if_neg hpeek, if_neg hpeek]
    exact .ok (.refl h)

theorem reaches_skipIf {p : Option UInt8 → Prop} [DecidablePred p] (hp : ¬ p none)
    (h : s.Within) : Reaches s (if p s.peek then s.advance else s) := by
  by_cases hpeek : p s.peek
  · cases hb : s.peek with
    | none => exact absurd (hb ▸ hpeek) hp
    | some b =>
      rw [← hb, if_pos hpeek]
      exact (passes_advance hb).toReaches
  · rw [if_neg hpeek]
    exact .refl h

theorem alike_skipExponent (h : s.Within) :
    Alike (fun _ => Reaches s) (skipExponent s) s.skipExponent.outcome := by
  unfold skipExponent Scanner.skipExponent
  rw [bind_apply, peek_apply, Outcome.ok_bind]
  by_cases hpeek : s.peek = some 101 ∨ s.peek = some 69
  · obtain ⟨b, hb⟩ : ∃ b, s.peek = some b := by
      rcases hpeek with hb | hb <;> exact ⟨_, hb⟩
    have hpasses := passes_advance hb
    have hnone : ¬ ((none : Option UInt8) = some 43 ∨ (none : Option UInt8) = some 45) := by
      decide
    have hsign := reaches_skipIf (p := fun b => b = some 43 ∨ b = some 45) hnone hpasses.within
    rw [if_pos hpeek, if_pos hpeek, bind_apply, advance_apply hb, Outcome.ok_bind, bind_apply,
      skipIf_apply hnone, Outcome.ok_bind]
    exact (alike_requireDigits hsign.within).mono fun _ t ht =>
      (hpasses.reaches (hsign.passes ht).toReaches).toReaches
  · rw [if_neg hpeek, if_neg hpeek]
    exact .ok (.refl h)

theorem alike_skipNumber (h : s.Within) :
    Alike (fun _ => Passes s) (skipNumber s) s.skipNumber.outcome := by
  have hnone : ¬ (none : Option UInt8) = some 45 := nofun
  have hsign := reaches_skipIf (p := fun b => b = some 45) hnone h
  refine Alike.ensuring ?_ fun _ _ hpasses => hpasses.lt
  rw [bind_apply, skipIf_apply hnone, Outcome.ok_bind, Scanner.skipNumber, outcome_bind]
  refine (alike_requireDigits hsign.within).bind fun _ t ht => ?_
  rw [outcome_bind]
  refine (alike_skipFraction ht.within).bind fun _ u hu => ?_
  exact (alike_skipExponent hu.within).mono fun _ v hv =>
    hsign.passes (ht.reaches (hu.trans hv))

end

end Scan

end Mqtt
end GarageDoor
