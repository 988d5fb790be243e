/-
The response-head parser against a whole-text reference.

The reference looks at a finished text: its lines, what each of them violates and
whether they make up a head.  The parser agrees with it on every stream: its first
event comes at the first byte where the text so far is a head or shows a violation.
-/
import GarageDoor.Core.Ota.Http.Parser
import GarageDoor.Library.Lines
import GarageDoor.Library.Trace

namespace GarageDoor
namespace Ota

open Library Ascii

/-! ## The reference -/

def tokens (line : Text) : List Text := (line.splitOn space).filter fun token => !token.isEmpty

def codeField (line : Text) : Text := (line.drop 9).takeWhile (· != space)

def headerName (line : Text) : Text := trim (line.takeWhile (· != colon))

def headerValue (line : Text) : Text := trim ((line.dropWhile (· != colon)).drop 1)

def HttpVersion (line : Text) : Prop :=
  text "HTTP/1.0 " <+: line ∨ text "HTTP/1.1 " <+: line

/-- A non-empty string of digits whose value is below `limit`. -/
def IsNumber (limit : Nat) (ds : Text) : Prop :=
  ds ≠ [] ∧ (∀ d ∈ ds, isDigit d = true) ∧ decimal ds < limit

def Named (name : String) (line : Text) : Prop :=
  eqIgnoreCase (headerName line) (text name) = true

def TransferEncoding : Text → Prop := Named "transfer-encoding"

def ContentLength : Text → Prop := Named "content-length"

def ExpectedStatus (status : Nat) : Prop := 200 ≤ status ∧ status ≤ 299 ∨ status = 404

instance (line : Text) : Decidable (HttpVersion line) := inferInstanceAs (Decidable (_ ∨ _))

instance (limit : Nat) (ds : Text) : Decidable (IsNumber limit ds) :=
  inferInstanceAs (Decidable (_ ∧ _))

instance : DecidablePred TransferEncoding := fun _ => inferInstanceAs (Decidable (_ = true))

instance : DecidablePred ContentLength := fun _ => inferInstanceAs (Decidable (_ = true))

instance : DecidablePred ExpectedStatus := fun _ => inferInstanceAs (Decidable (_ ∨ _))

/-- The ended lines of a text, each without one trailing carriage return. -/
def lines (s : Text) : List Text := (endedLines lineFeed s).map dropCr

def statusViolation (line : Text) : Option HeadError :=
  if ¬ HttpVersion line then some .malformedStatusLine
  else if (tokens line).length < 3 then some .tooFewStatusTokens
  else if ¬ IsNumber (2 ^ 16) (codeField line) then some .nonNumericStatus
  else none

def headerViolation (headers : List Text) (line : Text) : Option HeadError :=
  if colon ∉ line then some .malformedHeader
  else if ¬ ContentLength line then none
  else if ¬ IsNumber (2 ^ 64) (headerValue line) then some .malformedHeader
  else if ∃ l ∈ headers, ContentLength l then some .duplicateContentLength
  else none

/-- What the empty line after `first` and `headers` violates. -/
def endViolation (first : Text) (headers : List Text) : Option HeadError :=
  if ∃ l ∈ headers, TransferEncoding l then some .transferEncoding
  else if ¬ ExpectedStatus (decimal (codeField first)) then some .unexpectedStatus
  else if decimal (codeField first) ≠ 404 ∧ ∀ l ∈ headers, ¬ ContentLength l then
    some .missingContentLength
  else none

/-- What a line violates, given the lines before it. -/
def violation : List Text → Text → Option HeadError
  | [], line => statusViolation line
  | first :: headers, line =>
    if line = [] then endViolation first headers else headerViolation headers line

/-- The violation at the last byte of a text. -/
def Shows (s : Text) (error : HeadError) : Prop :=
  maxHeadBytes < s.length ∧ error = .oversizedHeader ∨
  s.length ≤ maxHeadBytes ∧ s.getLast? = some lineFeed ∧
    ∃ before line, lines s = before ++ [line] ∧ violation before line = some error

structure HeaderLine (line : Text) : Prop where
  nonempty : line ≠ []
  colon : colon ∈ line
  length : ContentLength line → IsNumber (2 ^ 64) (headerValue line)

structure Accepted (first : Text) (headers : List Text) (head : ResponseHead) : Prop where
  version : HttpVersion first
  tokens : 3 ≤ (tokens first).length
  code : IsNumber (2 ^ 16) (codeField first)
  status : decimal (codeField first) = head.status
  expected : ExpectedStatus head.status
  each : ∀ line ∈ headers, HeaderLine line
  plain : ∀ line ∈ headers, ¬ TransferEncoding line
  lengths : (headers.filter (ContentLength ·)).map (decimal ∘ headerValue) =
    head.contentLength.toList
  missing : head.contentLength = none → head.status = 404

/-- The text is a whole response head, ended by its first empty line. -/
def IsHead (s : Text) (head : ResponseHead) : Prop :=
  s.length ≤ maxHeadBytes ∧ s.getLast? = some lineFeed ∧
    ∃ first headers, lines s = first :: headers ++ [[]] ∧ Accepted first headers head

/-- The parser asks for more after every byte. -/
def Silent (s : List UInt8) : Prop :=
  EachAfter (fun pre b => ((HeadParser.new.feed pre).push b).1 = .needMore) s

/-- The parser returns `event` at byte `n` and asked for more before. -/
def FirstEvent (s : List UInt8) (n : Nat) (event : HeadEvent) : Prop :=
  ∃ pre b post, s = pre ++ b :: post ∧ n = pre.length + 1 ∧ Silent pre ∧
    ((HeadParser.new.feed pre).push b).1 = event ∧ event ≠ .needMore

/-! ## Lines that pass -/

/-- The line neither violates anything nor ends the head. -/
def Passes (before : List Text) (line : Text) : Prop :=
  violation before line = none ∧ (before = [] ∨ line ≠ [])

def Quiet (s : Text) : Prop := s.length ≤ maxHeadBytes ∧ EachAfter Passes (lines s)

@[simp] theorem lines_nil : lines [] = [] := rfl

@[simp] theorem lines_snoc_sep (s : Text) :
    lines (s ++ [lineFeed]) = lines s ++ [dropCr (openLine lineFeed s)] := by
  simp [lines]

theorem lines_snoc {b : UInt8} (hb : b ≠ lineFeed) (s : Text) : lines (s ++ [b]) = lines s := by
  rw [lines, endedLines_snoc hb, lines]

theorem statusViolation_eq_none {line : Text} :
    statusViolation line = none ↔
      HttpVersion line ∧ 3 ≤ (tokens line).length ∧ IsNumber (2 ^ 16) (codeField line) := by
  unfold statusViolation
  split_ifs with h₁ h₂ h₃
  · simp [show ¬ 3 ≤ (tokens line).length by omega]
  · exact iff_of_true rfl ⟨h₁, Nat.not_lt.mp h₂, h₃⟩
  · exact iff_of_false (by simp) fun h => h₃ h.2.2
  · exact iff_of_false (by simp) fun h => h₁ h.1

theorem headerViolation_eq_none {headers : List Text} {line : Text} (hne : line ≠ []) :
    headerViolation headers line = none ↔
      HeaderLine line ∧ (ContentLength line → ∀ l ∈ headers, ¬ ContentLength l) := by
  unfold headerViolation
  constructor
  · intro h
    split_ifs at h with h₁ h₂ h₃ h₄
    · exact ⟨⟨hne, h₁, fun _ => h₃⟩, fun _ l hl hc => h₄ ⟨l, hl, hc⟩⟩
    · exact ⟨⟨hne, h₁, fun hc => absurd hc h₂⟩, fun hc => absurd hc h₂⟩
  · intro ⟨hline, hunique⟩
    by_cases hc : ContentLength line
    · have hnone : ¬ ∃ l ∈ headers, ContentLength l := by
        intro ⟨l, hl, hl'⟩
        exact hunique hc l hl hl'
      rw [if_neg (not_not.mpr hline.colon), if_neg (not_not.mpr hc),
        if_neg (not_not.mpr (hline.length hc)), if_neg hnone]
    · rw [if_neg (not_not.mpr hline.colon), if_pos hc]

theorem endViolation_eq_none {first : Text} {headers : List Text} :
    endViolation first headers = none ↔
      (∀ l ∈ headers, ¬ TransferEncoding l) ∧ ExpectedStatus (decimal (codeField first)) ∧
        ((∀ l ∈ headers, ¬ ContentLength l) → decimal (codeField first) = 404) := by
  unfold endViolation
  constructor
  · intro h
    split_ifs at h with h₁ h₂ h₃
    refine ⟨fun l hl ht => h₁ ⟨l, hl, ht⟩, h₂, fun hnone => ?_⟩
    by_contra h404
    exact h₃ ⟨h404, hnone⟩
  · intro ⟨hplain, hexpected, hmissing⟩
    have hnone : ¬ ∃ l ∈ headers, TransferEncoding l := by
      intro ⟨l, hl, ht⟩
      exact hplain l hl ht
    have hlength : ¬ (decimal (codeField first) ≠ 404 ∧ ∀ l ∈ headers, ¬ ContentLength l) :=
      fun h => h.1 (hmissing h.2)
    rw [if_neg hnone, if_neg (not_not.mpr hexpected), if_neg hlength]

/-! ## Lines as the parser reads them -/

theorem not_transferEncoding_of_contentLength {line : Text} (h : ContentLength line) :
    ¬ TransferEncoding line := by
  intro ht
  have hnames := (beq_iff_eq.mp ht).symm.trans (beq_iff_eq.mp h)
  exact absurd hnames (by decide)

theorem isNumber_iff {limit : Nat} {ds : Text} (hlimit : 0 < limit) :
    IsNumber limit ds ↔ ds ≠ [] ∧ ds.all isDigit = true ∧
      checkedDecimal limit 0 ds = some (decimal ds) := by
  rw [checkedDecimal_eq_some hlimit, List.all_eq_true]
  simp [IsNumber, decimal]

theorem checkedDecimal_eq_none {limit : Nat} {ds : Text} (hlimit : 0 < limit)
    (h : limit ≤ decimal ds) : checkedDecimal limit 0 ds = none := by
  cases hds : checkedDecimal limit 0 ds with
  | none => rfl
  | some w =>
    obtain ⟨hw, hlt⟩ := (checkedDecimal_eq_some hlimit).mp hds
    exact absurd h (by rw [decimal, hw]; omega)

theorem parseLength_eq (v : Nat) (ds : Text) :
    parseLength v ds = if ds.all isDigit then checkedDecimal (2 ^ 64) v ds else none := by
  induction ds generalizing v with
  | nil => simp [parseLength, checkedDecimal]
  | cons d ds ih =>
    rw [parseLength, checkedDecimal, ih, List.all_cons]
    by_cases hd : isDigit d = true
    · rw [if_pos hd, hd, Bool.true_and]
      by_cases hv : pushDigit v d < 2 ^ 64
      · rw [if_pos hv, if_pos hv]
      · rw [if_neg hv, if_neg hv, ite_self]
    · rw [if_neg hd, if_neg fun h => hd (Bool.and_eq_true_iff.mp h).1]

theorem parseStatus_eq (line : Text) :
    parseStatus line =
      match statusViolation line with
      | some error => .error error
      | none => .ok (decimal (codeField line)) := by
  have htoken : (line.splitOn space).filter (fun token => !token.isEmpty) = tokens line := rfl
  have hcode : (line.drop 9).takeWhile (· != space) = codeField line := rfl
  have hversion : (text "HTTP/1.0 " <+: line ∨ text "HTTP/1.1 " <+: line) = HttpVersion line := rfl
  simp only [parseStatus, statusViolation, htoken, hcode, hversion]
  by_cases hversion : HttpVersion line
  · rw [if_neg (not_not.mpr hversion), if_neg (not_not.mpr hversion)]
    by_cases htokens : (tokens line).length < 3
    · rw [if_pos htokens, if_pos htokens]
    · rw [if_neg htokens, if_neg htokens]
      by_cases hdigits : codeField line = [] ∨ ¬ (codeField line).all isDigit = true
      · rw [if_pos hdigits]
        rw [if_pos]
        rintro ⟨hne, hall, -⟩
        exact hdigits.elim hne fun h => h (List.all_eq_true.mpr hall)
      · rw [if_neg hdigits]
        rw [not_or, not_not] at hdigits
        by_cases hlt : decimal (codeField line) < 2 ^ 16
        · have hnumber : IsNumber (2 ^ 16) (codeField line) :=
            ⟨hdigits.1, List.all_eq_true.mp hdigits.2, hlt⟩
          rw [if_neg (not_not.mpr hnumber), ((isNumber_iff (by decide)).mp hnumber).2.2]
        · rw [if_pos fun h => hlt h.2.2, checkedDecimal_eq_none (by decide) (Nat.not_lt.mp hlt)]
  · rw [if_pos hversion, if_pos hversion]

/-- The header parser in the words of the reference. -/
theorem parseHeader_eq (line : Text) :
    parseHeader line =
      if colon ∈ line then
        if TransferEncoding line then .ok { transferEncoding := true, contentLength := none }
        else if ContentLength line then
          if headerValue line = [] then .error .malformedHeader
          else
            match parseLength 0 (headerValue line) with
            | none => .error .malformedHeader
            | some parsed => .ok { transferEncoding := false, contentLength := some parsed }
        else .ok { transferEncoding := false, contentLength := none }
      else .error .malformedHeader :=
  rfl

theorem parseHeader_ok {line : Text} (h : HeaderLine line) :
    parseHeader line = .ok
      { transferEncoding := decide (TransferEncoding line)
        contentLength :=
          if ContentLength line then some (decimal (headerValue line)) else none } := by
  rw [parseHeader_eq, if_pos h.colon]
  by_cases hlength : ContentLength line
  · have hplain := not_transferEncoding_of_contentLength hlength
    have hnumber := h.length hlength
    obtain ⟨-, hdigits, hvalue⟩ := (isNumber_iff (by decide)).mp hnumber
    rw [if_neg hplain, if_pos hlength, if_neg hnumber.1, parseLength_eq, if_pos hdigits, hvalue]
    simp [hplain, hlength]
  · by_cases hcoding : TransferEncoding line
    · rw [if_pos hcoding]
      simp [hcoding, hlength]
    · rw [if_neg hcoding, if_neg hlength]
      simp [hcoding, hlength]

theorem parseHeader_error {line : Text} (hne : line ≠ []) (h : ¬ HeaderLine line) :
    parseHeader line = .error .malformedHeader := by
  rw [parseHeader_eq]
  by_cases hcolon : colon ∈ line
  · have hlength : ContentLength line := by
      by_contra hlength
      exact h ⟨hne, hcolon, fun hc => absurd hc hlength⟩
    have hnumber : ¬ IsNumber (2 ^ 64) (headerValue line) :=
      fun hnumber => h ⟨hne, hcolon, fun _ => hnumber⟩
    rw [if_pos hcolon, if_neg (not_transferEncoding_of_contentLength hlength), if_pos hlength]
    by_cases hempty : headerValue line = []
    · rw [if_pos hempty]
    · rw [if_neg hempty, parseLength_eq]
      by_cases hdigits : (headerValue line).all isDigit = true
      · have hlarge : 2 ^ 64 ≤ decimal (headerValue line) :=
          Nat.not_lt.mp fun hlt => hnumber ⟨hempty, List.all_eq_true.mp hdigits, hlt⟩
        rw [if_pos hdigits, checkedDecimal_eq_none (by decide) hlarge]
      · rw [if_neg hdigits]
  · rw [if_neg hcolon]

/-! ## Heads and quiet texts -/

theorem passes_nil {line : Text} : Passes [] line ↔ statusViolation line = none := by
  simp [Passes, violation]

theorem passes_cons {first line : Text} {headers : List Text} :
    Passes (first :: headers) line ↔
      HeaderLine line ∧ (ContentLength line → ∀ l ∈ headers, ¬ ContentLength l) := by
  by_cases hne : line = []
  · subst hne
    exact iff_of_false (fun h => by simp [Passes] at h) fun h => h.1.nonempty rfl
  · simp [Passes, violation, hne, headerViolation_eq_none hne]

/-- The lines of a head before the empty one. -/
theorem eachAfter_passes_cons {first : Text} {headers : List Text} :
    EachAfter Passes (first :: headers) ↔
      statusViolation first = none ∧ (∀ l ∈ headers, HeaderLine l) ∧
        (headers.filter (ContentLength ·)).length ≤ 1 := by
  induction headers using List.reverseRecOn with
  | nil =>
    rw [show [first] = [] ++ [first] from rfl, eachAfter_snoc, passes_nil]
    simp [eachAfter_nil]
  | append_singleton headers line ih =>
    rw [← List.cons_append, eachAfter_snoc, ih, passes_cons, List.filter_append,
      List.length_append]
    by_cases hline : ContentLength line
    · have hfilter : (∀ l ∈ headers, ¬ ContentLength l) ↔
          (headers.filter (ContentLength ·)).length = 0 := by
        rw [List.length_eq_zero_iff, List.filter_eq_nil_iff]
        simp
      have hone : ([line].filter (ContentLength ·)).length = 1 := by simp [hline]
      simp only [hline, true_imp_iff, hfilter, hone, List.forall_mem_append,
        List.forall_mem_singleton]
      constructor
      · rintro ⟨⟨hfirst, heach, -⟩, hlast, hnone⟩
        exact ⟨hfirst, ⟨heach, hlast⟩, by omega⟩
      · intro ⟨hfirst, ⟨heach, hlast⟩, hle⟩
        exact ⟨⟨hfirst, heach, by omega⟩, hlast, by omega⟩
    · have hzero : ([line].filter (ContentLength ·)).length = 0 := by simp [hline]
      simp only [hline, false_imp_iff, hzero, List.forall_mem_append,
        List.forall_mem_singleton, and_true, Nat.add_zero]
      tauto

theorem Accepted.passes {first : Text} {headers : List Text} {head : ResponseHead}
    (h : Accepted first headers head) : EachAfter Passes (first :: headers) := by
  refine eachAfter_passes_cons.mpr
    ⟨statusViolation_eq_none.mpr ⟨h.version, h.tokens, h.code⟩, h.each, ?_⟩
  have := congrArg List.length h.lengths
  rw [List.length_map] at this
  rw [this]
  cases head.contentLength <;> simp

theorem Accepted.endViolation {first : Text} {headers : List Text} {head : ResponseHead}
    (h : Accepted first headers head) : endViolation first headers = none := by
  refine endViolation_eq_none.mpr ⟨h.plain, h.status ▸ h.expected, fun hnone => ?_⟩
  rw [h.status]
  refine h.missing ?_
  have hlengths := h.lengths
  rw [List.filter_eq_nil_iff.mpr (by simpa using hnone)] at hlengths
  cases hlength : head.contentLength with
  | none => rfl
  | some length => simp [hlength] at hlengths

theorem Accepted.unique {first : Text} {headers : List Text} {head head' : ResponseHead}
    (h : Accepted first headers head) (h' : Accepted first headers head') : head = head' := by
  have hstatus := h.status.symm.trans h'.status
  have hlength : head.contentLength = head'.contentLength := by
    simpa using congrArg List.head? (h.lengths.symm.trans h'.lengths)
  cases head
  cases head'
  exact congr (congrArg ResponseHead.mk hstatus) hlength

theorem Quiet.not_shows {s : Text} {error : HeadError} (h : Quiet s) : ¬ Shows s error := by
  rintro (⟨hlong, -⟩ | ⟨-, -, before, line, hlines, hviolation⟩)
  · exact absurd h.1 (Nat.not_le.mpr hlong)
  · have := (h.2 before line [] hlines).1
    rw [hviolation] at this
    cases this

theorem Quiet.not_isHead {s : Text} {head : ResponseHead} (h : Quiet s) : ¬ IsHead s head := by
  rintro ⟨-, -, first, headers, hlines, -⟩
  have := (h.2 (first :: headers) [] [] hlines).2
  simp at this

theorem IsHead.not_shows {s : Text} {head : ResponseHead} {error : HeadError}
    (h : IsHead s head) : ¬ Shows s error := by
  obtain ⟨hlength, -, first, headers, hlines, haccepted⟩ := h
  rintro (⟨hlong, -⟩ | ⟨-, -, before, line, hlines', hviolation⟩)
  · omega
  · obtain ⟨rfl, hline⟩ := List.append_inj' (hlines.symm.trans hlines') rfl
    rw [List.singleton_inj] at hline
    subst hline
    rw [violation, if_pos rfl, haccepted.endViolation] at hviolation
    cases hviolation

theorem Shows.unique {s : Text} {error error' : HeadError} (h : Shows s error)
    (h' : Shows s error') : error = error' := by
  rcases h with ⟨hlong, rfl⟩ | ⟨hle, -, before, line, hlines, hviolation⟩ <;>
    rcases h' with ⟨hlong', rfl⟩ | ⟨hle', -, before', line', hlines', hviolation'⟩
  · rfl
  · omega
  · omega
  · obtain ⟨rfl, hline⟩ := List.append_inj' (hlines.symm.trans hlines') rfl
    rw [List.singleton_inj] at hline
    subst hline
    exact Option.some.inj (hviolation.symm.trans hviolation')

theorem IsHead.unique {s : Text} {head head' : ResponseHead} (h : IsHead s head)
    (h' : IsHead s head') : head = head' := by
  obtain ⟨-, -, first, headers, hlines, haccepted⟩ := h
  obtain ⟨-, -, first', headers', hlines', haccepted'⟩ := h'
  obtain ⟨hcons, -⟩ := List.append_inj' (hlines.symm.trans hlines') rfl
  obtain ⟨rfl, rfl⟩ := List.cons_eq_cons.mp hcons
  exact haccepted.unique haccepted'

/-- Nothing happens before the last byte of a head. -/
theorem IsHead.quiet {s : Text} {b : UInt8} {head : ResponseHead} (h : IsHead (s ++ [b]) head) :
    Quiet s := by
  obtain ⟨hlength, hlast, first, headers, hlines, haccepted⟩ := h
  rw [List.getLast?_concat, Option.some.injEq] at hlast
  subst hlast
  rw [lines_snoc_sep] at hlines
  obtain ⟨hlines, -⟩ := List.append_inj' hlines rfl
  rw [List.length_append] at hlength
  exact ⟨by omega, hlines ▸ haccepted.passes⟩

theorem Quiet.of_snoc {s : Text} {b : UInt8} (h : Quiet (s ++ [b])) : Quiet s := by
  obtain ⟨hlength, hpasses⟩ := h
  rw [List.length_append] at hlength
  refine ⟨by omega, ?_⟩
  by_cases hb : b = lineFeed
  · subst hb
    rw [lines_snoc_sep] at hpasses
    exact (eachAfter_snoc.mp hpasses).1
  · rwa [lines_snoc hb] at hpasses

/-! ## The state of the parser -/

/-- The fields of the parser after the lines read so far. -/
def Fields (p : HeadParser) : List Text → Prop
  | [] => p.state = .status ∧ p.contentLength = none ∧ p.transferEncoding = false
  | first :: headers =>
    p.state = .headers ∧ p.status = decimal (codeField first) ∧
    (headers.filter (ContentLength ·)).map (decimal ∘ headerValue) = p.contentLength.toList ∧
    (p.transferEncoding = true ↔ ∃ l ∈ headers, TransferEncoding l)

structure Reading (p : HeadParser) (s : Text) : Prop where
  terminal : p.terminal = none
  total : p.total = s.length
  line : p.line = openLine lineFeed s
  quiet : Quiet s
  fields : Fields p (lines s)

theorem reading_new : Reading HeadParser.new [] where
  terminal := rfl
  total := rfl
  line := rfl
  quiet := ⟨Nat.zero_le _, eachAfter_nil _⟩
  fields := ⟨rfl, rfl, rfl⟩

theorem Fields.contentLength_eq_none {p : HeadParser} {first : Text} {headers : List Text}
    (h : Fields p (first :: headers)) :
    p.contentLength = none ↔ ∀ l ∈ headers, ¬ ContentLength l := by
  obtain ⟨-, -, hlengths, -⟩ := h
  constructor
  · intro hnone
    rw [hnone, Option.toList_none, List.map_eq_nil_iff, List.filter_eq_nil_iff] at hlengths
    simpa using hlengths
  · intro hnone
    rw [List.filter_eq_nil_iff.mpr (by simpa using hnone)] at hlengths
    cases hlength : p.contentLength with
    | none => rfl
    | some length => simp [hlength] at hlengths

/-- A line that passes leaves the parser waiting for the next one. -/
theorem act_of_passes {p : HeadParser} {before : List Text} {line : Text}
    (hfields : Fields p before) (h : Passes before line) :
    ∃ p', p.act (HeadParser.action p.state line) = (.needMore, p') ∧ p'.terminal = p.terminal ∧
      p'.total = p.total ∧ p'.line = p.line ∧ Fields p' (before ++ [line]) := by
  cases before with
  | nil =>
    obtain ⟨hstate, hlength, hcoding⟩ := hfields
    rw [passes_nil] at h
    refine ⟨{ p with status := decimal (codeField line), state := .headers }, ?_, rfl, rfl, rfl,
      rfl, rfl, ?_, ?_⟩
    · simp only [HeadParser.action, hstate, parseStatus_eq, h, HeadParser.act]
    · simp [hlength]
    · simp [hcoding]
  | cons first headers =>
    have hnone := hfields.contentLength_eq_none
    obtain ⟨hstate, hstatus, hlengths, hcoding⟩ := hfields
    obtain ⟨hline, hunique⟩ := passes_cons.mp h
    simp only [HeadParser.action, hstate, if_neg hline.nonempty, parseHeader_ok hline,
      HeadParser.act]
    by_cases hlength : ContentLength line
    · have hplain := not_transferEncoding_of_contentLength hlength
      have hfirst := hnone.mpr (hunique hlength)
      rw [hfirst] at hlengths
      refine ⟨{ p with contentLength := some (decimal (headerValue line)) }, ?_, rfl, rfl, rfl,
        hstate, hstatus, ?_, ?_⟩
      · simp [hplain, hlength, hfirst]
      · simp [hlengths, hlength]
      · simp [hcoding, hplain, or_and_right, exists_or]
    · by_cases hplain : TransferEncoding line
      · refine ⟨{ p with transferEncoding := true }, ?_, rfl, rfl, rfl, hstate, hstatus, ?_, ?_⟩
        · simp [hplain, hlength, hstate]
        · simp [hlengths, hlength]
        · exact iff_of_true rfl ⟨line, by simp, hplain⟩
      · refine ⟨p, ?_, rfl, rfl, rfl, hstate, hstatus, ?_, ?_⟩
        · simp [hplain, hlength]
        · simp [hlengths, hlength]
        · simp [hcoding, hplain, or_and_right, exists_or]

theorem headerViolation_of_not {headers : List Text} {line : Text} (hne : line ≠ [])
    (h : ¬ HeaderLine line) : headerViolation headers line = some .malformedHeader := by
  unfold headerViolation
  by_cases hcolon : colon ∈ line
  · have hlength : ContentLength line := by
      by_contra hlength
      exact h ⟨hne, hcolon, fun hc => absurd hc hlength⟩
    rw [if_neg (not_not.mpr hcolon), if_neg (not_not.mpr hlength),
      if_pos fun hnumber => h ⟨hne, hcolon, fun _ => hnumber⟩]
  · rw [if_pos hcolon]

theorem headerViolation_of_duplicate {headers : List Text} {line : Text} (h : HeaderLine line)
    (hlength : ContentLength line) (hdup : ∃ l ∈ headers, ContentLength l) :
    headerViolation headers line = some .duplicateContentLength := by
  rw [headerViolation, if_neg (not_not.mpr h.colon), if_neg (not_not.mpr hlength),
    if_neg (not_not.mpr (h.length hlength)), if_pos hdup]

/-- What the parser does at the empty line. -/
theorem finish_eq {p : HeadParser} {first : Text} {headers : List Text}
    (hfields : Fields p (first :: headers)) :
    p.finish =
      match endViolation first headers with
      | some error => p.reject error
      | none => p.complete p.contentLength := by
  have hnone := hfields.contentLength_eq_none
  obtain ⟨-, hstatus, -, hcoding⟩ := hfields
  unfold HeadParser.finish endViolation
  rw [← hstatus]
  by_cases hplain : ∃ l ∈ headers, TransferEncoding l
  · rw [if_pos hplain, if_pos (hcoding.mpr hplain)]
  rw [if_neg hplain, if_neg fun h => hplain (hcoding.mp h)]
  by_cases hexpected : ExpectedStatus p.status
  · rw [if_neg (not_not.mpr hexpected),
      if_neg fun h => hexpected.elim (fun hs => h.1 hs) fun hs => h.2 hs]
    by_cases hmissing : p.status ≠ 404 ∧ ∀ l ∈ headers, ¬ ContentLength l
    · rw [if_pos hmissing, hnone.mpr hmissing.2]
      simp only [if_neg hmissing.1]
    · rw [if_neg hmissing]
      cases hlength : p.contentLength with
      | some length => rfl
      | none =>
        have h404 : p.status = 404 := by
          by_contra h404
          exact hmissing ⟨h404, hnone.mp hlength⟩
        simp only [if_pos h404]
  · rw [if_pos hexpected, if_pos (not_or.mp hexpected)]

/-- A line that violates something rejects the head with it. -/
theorem act_of_violation {p : HeadParser} {before : List Text} {line : Text} {error : HeadError}
    (hfields : Fields p before) (h : violation before line = some error) :
    (p.act (HeadParser.action p.state line)).1 = .reject error := by
  cases before with
  | nil =>
    have hviolation : statusViolation line = some error := h
    simp only [HeadParser.action, hfields.1, parseStatus_eq, hviolation, HeadParser.act]
    rfl
  | cons first headers =>
    by_cases hne : line = []
    · subst hne
      rw [violation, if_pos rfl] at h
      simp only [HeadParser.action, hfields.1, if_true, HeadParser.act, finish_eq hfields, h]
      rfl
    · rw [violation, if_neg hne] at h
      by_cases hline : HeaderLine line
      · have hdup : ¬ (ContentLength line → ∀ l ∈ headers, ¬ ContentLength l) := by
          intro hunique
          rw [(headerViolation_eq_none hne).mpr ⟨hline, hunique⟩] at h
          cases h
        simp only [Classical.not_imp, not_forall, not_not] at hdup
        obtain ⟨hlength, l, hl, hl'⟩ := hdup
        have hsome : p.contentLength.isSome = true := by
          rw [← Option.ne_none_iff_isSome]
          exact fun hnone => hfields.contentLength_eq_none.mp hnone l hl hl'
        rw [headerViolation_of_duplicate hline hlength ⟨l, hl, hl'⟩, Option.some.injEq] at h
        subst h
        simp only [HeadParser.action, hfields.1, if_neg hne, parseHeader_ok hline,
          HeadParser.act, if_pos hlength]
        simp [not_transferEncoding_of_contentLength hlength, hsome, HeadParser.reject,
          HeadParser.finishWith]
      · rw [headerViolation_of_not hne hline, Option.some.injEq] at h
        subst h
        simp only [HeadParser.action, hfields.1, if_neg hne, parseHeader_error hne hline,
          HeadParser.act]
        rfl

/-- The empty line ends a head without violations. -/
theorem act_of_end {p : HeadParser} {first : Text} {headers : List Text}
    (hfields : Fields p (first :: headers)) (hpasses : EachAfter Passes (first :: headers))
    (h : endViolation first headers = none) :
    ∃ head p', p.act (HeadParser.action p.state []) = (.complete head, p') ∧
      p'.total = p.total ∧ Accepted first headers head := by
  refine ⟨{ status := p.status, contentLength := p.contentLength },
    (p.complete p.contentLength).2, ?_, rfl, ?_⟩
  · simp only [HeadParser.action, hfields.1, if_true, HeadParser.act, finish_eq hfields, h]
    rfl
  · obtain ⟨hfirst, heach, -⟩ := eachAfter_passes_cons.mp hpasses
    obtain ⟨hversion, htokens, hcode⟩ := statusViolation_eq_none.mp hfirst
    obtain ⟨hplain, hexpected, hmissing⟩ := endViolation_eq_none.mp h
    have hnone := hfields.contentLength_eq_none
    obtain ⟨-, hstatus, hlengths, -⟩ := hfields
    exact
      { version := hversion, tokens := htokens, code := hcode, status := hstatus.symm
        expected := by rwa [hstatus], each := heach, plain := hplain, lengths := hlengths
        missing := fun hl => hstatus.trans (hmissing (hnone.mp hl)) }

/-- A byte within a line joins it. -/
theorem Reading.byte {p : HeadParser} {s : Text} (h : Reading p s) {b : UInt8} (hb : b ≠ lineFeed)
    (hle : (s ++ [b]).length ≤ maxHeadBytes) :
    (p.push b).1 = .needMore ∧ Reading (p.push b).2 (s ++ [b]) := by
  have hline := length_openLine_le lineFeed s
  have hsnoc : (s ++ [b]).length = s.length + 1 := by simp
  have htotal := h.total
  rw [HeadParser.push, h.terminal]
  simp only [HeadParser.read]
  rw [if_neg (by omega), if_pos hb, if_neg (by rw [h.line]; omega)]
  refine ⟨rfl, ?_⟩
  exact
    { terminal := h.terminal
      total := by rw [hsnoc, htotal]
      line := by rw [openLine_snoc hb, h.line]
      quiet := ⟨hle, by rw [lines_snoc hb]; exact h.quiet.2⟩
      fields := by
        have := h.fields
        rw [lines_snoc hb]
        cases hls : lines s <;> rw [hls] at this <;> exact this }

/-- A line feed ends the line, which passes, breaks a rule or ends the head. -/
theorem Reading.lineEnd {p : HeadParser} {s : Text} (h : Reading p s)
    (hle : (s ++ [lineFeed]).length ≤ maxHeadBytes) :
    ((p.push lineFeed).1 = .needMore ∧ Reading (p.push lineFeed).2 (s ++ [lineFeed])) ∨
    (∃ error, (p.push lineFeed).1 = .reject error ∧ Shows (s ++ [lineFeed]) error) ∨
    (∃ head, (p.push lineFeed).1 = .complete head ∧ IsHead (s ++ [lineFeed]) head ∧
      (p.push lineFeed).2.total = s.length + 1) := by
  have hsnoc : (s ++ [lineFeed]).length = s.length + 1 := by simp
  have htotal := h.total
  rw [HeadParser.push, h.terminal]
  simp only [HeadParser.read]
  rw [if_neg (by omega), if_neg (not_not.mpr rfl), h.line]
  have hlines := lines_snoc_sep s
  generalize dropCr (openLine lineFeed s) = line at hlines ⊢
  have hfields : Fields { p with total := p.total + 1, line := [] } (lines s) := by
    have := h.fields
    cases hls : lines s <;> rw [hls] at this <;> exact this
  have hlast : (s ++ [lineFeed]).getLast? = some lineFeed := List.getLast?_concat
  cases hviolation : violation (lines s) line with
  | some error =>
    exact .inr (.inl ⟨error, act_of_violation hfields hviolation,
      .inr ⟨hle, hlast, lines s, line, hlines, hviolation⟩⟩)
  | none =>
    by_cases hend : lines s = [] ∨ line ≠ []
    · have hpasses : Passes (lines s) line := ⟨hviolation, hend⟩
      obtain ⟨p', hact, hterminal, htotal', hline, hfields'⟩ := act_of_passes hfields hpasses
      refine .inl ⟨congrArg Prod.fst hact, ?_⟩
      rw [show (HeadParser.act _ _).2 = p' from congrArg Prod.snd hact]
      exact
        { terminal := hterminal.trans h.terminal
          total := by rw [htotal', hsnoc, htotal]
          line := by rw [hline, openLine_snoc_sep]
          quiet := ⟨hle, hlines ▸ eachAfter_snoc.mpr ⟨h.quiet.2, hpasses⟩⟩
          fields := hlines ▸ hfields' }
    · rw [not_or, not_not] at hend
      obtain ⟨hne, rfl⟩ := hend
      obtain ⟨first, headers, hcons⟩ := List.exists_cons_of_ne_nil hne
      rw [hcons] at hviolation hfields
      rw [violation, if_pos rfl] at hviolation
      obtain ⟨head, p', hact, htotal', haccepted⟩ :=
        act_of_end hfields (hcons ▸ h.quiet.2) hviolation
      refine .inr (.inr ⟨head, congrArg Prod.fst hact, ?_, ?_⟩)
      · exact ⟨hle, hlast, first, headers, hcons ▸ hlines, haccepted⟩
      · rw [show (HeadParser.act _ _).2 = p' from congrArg Prod.snd hact, htotal', htotal]

/-- One byte: the parser goes on reading, or it stops as the reference says. -/
theorem push_of_reading {p : HeadParser} {s : Text} (h : Reading p s) (b : UInt8) :
    ((p.push b).1 = .needMore ∧ Reading (p.push b).2 (s ++ [b])) ∨
    (∃ error, (p.push b).1 = .reject error ∧ Shows (s ++ [b]) error) ∨
    (∃ head, (p.push b).1 = .complete head ∧ IsHead (s ++ [b]) head ∧
      (p.push b).2.total = s.length + 1) := by
  have hbudget := h.quiet.1
  have hsnoc : (s ++ [b]).length = s.length + 1 := by simp
  by_cases hle : (s ++ [b]).length ≤ maxHeadBytes
  · by_cases hb : b = lineFeed
    · subst hb
      exact h.lineEnd hle
    · exact .inl (h.byte hb hle)
  · rw [HeadParser.push, h.terminal]
    simp only [HeadParser.read]
    rw [if_pos (by rw [h.total]; omega)]
    exact .inr (.inl ⟨_, rfl, .inl ⟨by omega, rfl⟩⟩)

/-! ## Whole streams -/

theorem reading_of_silent {s : Text} (h : Silent s) : Reading (HeadParser.new.feed s) s := by
  induction s using List.reverseRecOn with
  | nil => exact reading_new
  | append_singleton s b ih =>
    obtain ⟨hs, hb⟩ := eachAfter_snoc.mp h
    rw [HeadParser.feed_append]
    rcases push_of_reading (ih hs) b with ⟨-, hreading⟩ | ⟨_, hevent, -⟩ | ⟨_, hevent, -⟩
    · exact hreading
    · rw [hb] at hevent
      cases hevent
    · rw [hb] at hevent
      cases hevent

/-- The parser is silent exactly on the texts in which every line passes. -/
theorem silent_iff_quiet {s : Text} : Silent s ↔ Quiet s := by
  constructor
  · intro h
    exact (reading_of_silent h).quiet
  · intro h
    induction s using List.reverseRecOn with
    | nil => exact eachAfter_nil _
    | append_singleton s b ih =>
      have hs := ih h.of_snoc
      refine eachAfter_snoc.mpr ⟨hs, ?_⟩
      rcases push_of_reading (reading_of_silent hs) b with
        ⟨hevent, -⟩ | ⟨_, -, hshows⟩ | ⟨_, -, hhead, -⟩
      · exact hevent
      · exact absurd hshows h.not_shows
      · exact absurd hhead h.not_isHead

theorem FirstEvent.le_length {s : Text} {n : Nat} {event : HeadEvent}
    (h : FirstEvent s n event) : n ≤ s.length := by
  obtain ⟨pre, b, post, rfl, rfl, -⟩ := h
  simp

theorem take_succ_length (pre : List UInt8) (b : UInt8) (post : List UInt8) :
    (pre ++ b :: post).take (pre.length + 1) = pre ++ [b] := by
  rw [List.append_cons]
  exact List.take_left' (by simp)

/-- The first event depends on nothing after its byte. -/
theorem FirstEvent.of_take {s t : Text} {n : Nat} {event : HeadEvent} (h : FirstEvent s n event)
    (htake : t.take n = s.take n) : FirstEvent t n event := by
  obtain ⟨pre, b, post, rfl, rfl, hrest⟩ := h
  rw [take_succ_length] at htake
  refine ⟨pre, b, t.drop (pre.length + 1), ?_, rfl, hrest⟩
  rw [List.append_cons, ← htake, List.take_append_drop]

/-- Every event but `needMore` is what the reference says of the text so far. -/
theorem FirstEvent.sound {s : Text} {n : Nat} {event : HeadEvent} (h : FirstEvent s n event) :
    (∃ error, event = .reject error ∧ Shows (s.take n) error) ∨
    (∃ head, event = .complete head ∧ IsHead (s.take n) head ∧
      (HeadParser.new.feed (s.take n)).consumed = n) := by
  obtain ⟨pre, b, post, rfl, rfl, hsilent, hevent, hne⟩ := h
  rw [take_succ_length, HeadParser.feed_append]
  rcases push_of_reading (reading_of_silent hsilent) b with
    ⟨hmore, -⟩ | ⟨error, hreject, hshows⟩ | ⟨head, hcomplete, hhead, htotal⟩
  · exact absurd (hevent.symm.trans hmore) hne
  · exact .inl ⟨error, hevent.symm.trans hreject, hshows⟩
  · exact .inr ⟨head, hevent.symm.trans hcomplete, hhead, htotal⟩

theorem FirstEvent.append {s : Text} {n : Nat} {event : HeadEvent} (h : FirstEvent s n event)
    (t : Text) : FirstEvent (s ++ t) n event := by
  obtain ⟨pre, b, post, rfl, hn, hrest⟩ := h
  exact ⟨pre, b, post ++ t, by simp, hn, hrest⟩

theorem exists_firstEvent {s : Text} (h : ¬ Silent s) : ∃ n event, FirstEvent s n event := by
  induction s using List.reverseRecOn with
  | nil => exact absurd (eachAfter_nil _) h
  | append_singleton s b ih =>
    by_cases hs : Silent s
    · refine ⟨s.length + 1, _, s, b, [], rfl, rfl, hs, rfl, fun hmore => h ?_⟩
      exact eachAfter_snoc.mpr ⟨hs, hmore⟩
    · obtain ⟨n, event, hevent⟩ := ih hs
      exact ⟨n, event, hevent.append [b]⟩

/-- After a silent text the next byte passes or is the first event. -/
theorem firstEvent_of_silent {pre : Text} (h : Silent pre) (b : UInt8) (post : Text) :
    Quiet (pre ++ [b]) ∨ ∃ event, FirstEvent (pre ++ b :: post) (pre.length + 1) event := by
  by_cases hmore : ((HeadParser.new.feed pre).push b).1 = .needMore
  · exact .inl (silent_iff_quiet.mp (eachAfter_snoc.mpr ⟨h, hmore⟩))
  · exact .inr ⟨_, pre, b, post, rfl, rfl, h, rfl, hmore⟩

theorem exists_split {s : Text} {n : Nat} (hpos : 0 < n) (hn : n ≤ s.length) :
    ∃ pre b post, s = pre ++ b :: post ∧ n = pre.length + 1 := by
  refine ⟨s.take (n - 1), s[n - 1], s.drop n, ?_, by rw [List.length_take]; omega⟩
  have := List.take_append_drop (n - 1) s
  rw [List.drop_eq_getElem_cons (by omega), Nat.sub_add_cancel hpos] at this
  exact this.symm

section

variable {s : Text} {n : Nat}

theorem FirstEvent.isHead {head : ResponseHead} (h : FirstEvent s n (.complete head)) :
    IsHead (s.take n) head ∧ (HeadParser.new.feed (s.take n)).consumed = n := by
  obtain ⟨_, hevent, -⟩ | ⟨head', hevent, hhead, hconsumed⟩ := h.sound
  · cases hevent
  · cases hevent
    exact ⟨hhead, hconsumed⟩

theorem FirstEvent.shows {error : HeadError} (h : FirstEvent s n (.reject error)) :
    Shows (s.take n) error := by
  obtain ⟨_, hevent, hshows⟩ | ⟨_, hevent, -⟩ := h.sound
  · cases hevent
    exact hshows
  · cases hevent

/-- Every shorter prefix is silent, and a silent text is neither. -/
theorem FirstEvent.quiet_before {event : HeadEvent} (h : FirstEvent s n event) {m : Nat}
    (hm : m < n) : Quiet (s.take m) := by
  obtain ⟨pre, b, post, rfl, rfl, hsilent, -⟩ := h
  have hpre : (pre ++ b :: post).take m = pre.take m :=
    List.take_append_of_le_length (by omega)
  rw [← List.take_append_drop m pre] at hsilent
  rw [hpre]
  exact silent_iff_quiet.mp hsilent.of_append

theorem IsHead.firstEvent {head : ResponseHead} (hn : n ≤ s.length)
    (hhead : IsHead (s.take n) head) : FirstEvent s n (.complete head) := by
  have hpos : 0 < n := Nat.pos_of_ne_zero fun h0 => by simp [h0, IsHead] at hhead
  obtain ⟨pre, b, post, rfl, rfl⟩ := exists_split hpos hn
  rw [take_succ_length] at hhead
  have hsilent := silent_iff_quiet.mpr hhead.quiet
  obtain hquiet | ⟨event, hfirst⟩ := firstEvent_of_silent hsilent b post
  · exact absurd hhead hquiet.not_isHead
  · have hsound := hfirst.sound
    rw [take_succ_length] at hsound
    obtain ⟨_, -, hshows⟩ | ⟨head', rfl, hhead', -⟩ := hsound
    · exact absurd hshows hhead.not_shows
    · exact hhead.unique hhead' ▸ hfirst

/-- A text that shows nothing before its last byte is silent up to there. -/
theorem silent_of_first {pre : Text} {b : UInt8} {post : Text}
    (hfirst : ∀ m < pre.length + 1, (∀ head, ¬ IsHead ((pre ++ b :: post).take m) head) ∧
      ∀ error, ¬ Shows ((pre ++ b :: post).take m) error) : Silent pre := by
  by_contra hnot
  obtain ⟨m, event, hevent⟩ := exists_firstEvent hnot
  have hle := hevent.le_length
  obtain ⟨hhead, hshow⟩ := hfirst m (by omega)
  obtain ⟨error, -, hshows⟩ | ⟨head, -, hhead', -⟩ := (hevent.append (b :: post)).sound
  · exact hshow error hshows
  · exact hhead head hhead'

theorem Shows.firstEvent {error : HeadError} (hn : n ≤ s.length) (hshows : Shows (s.take n) error)
    (hfirst : ∀ m < n, (∀ head, ¬ IsHead (s.take m) head) ∧ ∀ error', ¬ Shows (s.take m) error') :
    FirstEvent s n (.reject error) := by
  have hpos : 0 < n := Nat.pos_of_ne_zero fun h0 => by simp [h0, Shows] at hshows
  obtain ⟨pre, b, post, rfl, rfl⟩ := exists_split hpos hn
  have hsilent := silent_of_first hfirst
  rw [take_succ_length] at hshows
  obtain hquiet | ⟨event, hevent⟩ := firstEvent_of_silent hsilent b post
  · exact absurd hshows hquiet.not_shows
  · have hsound := hevent.sound
    rw [take_succ_length] at hsound
    obtain ⟨error', rfl, hshows'⟩ | ⟨_, -, hhead, -⟩ := hsound
    · exact hshows.unique hshows' ▸ hevent
    · exact absurd hshows hhead.not_shows

end

/-- The parser is its reference: it completes at byte `n` exactly when the first `n`
bytes are a head, and rejects at byte `n` exactly with the first violation. -/
theorem headParser_reference (s : Text) (n : Nat) :
    (∀ head, FirstEvent s n (.complete head) ↔ n ≤ s.length ∧ IsHead (s.take n) head) ∧
    (∀ head, FirstEvent s n (.complete head) →
      (HeadParser.new.feed (s.take n)).consumed = n) ∧
    (∀ error, FirstEvent s n (.reject error) ↔
      n ≤ s.length ∧ Shows (s.take n) error ∧
        ∀ m < n, (∀ head, ¬ IsHead (s.take m) head) ∧ ∀ error', ¬ Shows (s.take m) error') := by
  refine ⟨fun head => ⟨fun h => ⟨h.le_length, h.isHead.1⟩, fun ⟨hn, hhead⟩ => hhead.firstEvent hn⟩,
    fun head h => h.isHead.2, fun error => ⟨fun h => ⟨h.le_length, h.shows, fun m hm => ?_⟩,
      fun ⟨hn, hshows, hfirst⟩ => hshows.firstEvent hn hfirst⟩⟩
  have hquiet := h.quiet_before hm
  exact ⟨fun _ => hquiet.not_isHead, fun _ => hquiet.not_shows⟩

end Ota
end GarageDoor
