/-
The head parser over its line buffer.

The functions are those of the parser with the buffer, the indices and the sums of the
source; `none` is a panic.  `total` counts every byte and `line_len` starts again at each
line feed, so the line is never longer than what was counted, and the count stops one
past the limit.
-/
import GarageDoor.Core.Ota.Http.Parser
import GarageDoor.Core.Ota.Texts
import GarageDoor.Library.Buffer
import GarageDoor.Library.Slice

namespace GarageDoor
namespace Ota

open Library Ascii

/-- `xs[start..stop]`. -/
def subslice (xs : Text) (start stop : Nat) : Option Text :=
  if start ≤ stop ∧ stop ≤ xs.length then some (slice xs start stop) else none

/-- The status code, summed in 32 bits. -/
def statusValue : UInt32 → Text → Option (Except HeadError Nat)
  | value, [] => some (.ok value.toNat)
  | value, d :: ds => do
    let value ← checkedPush value d
    if 65535 < value then some (.error .nonNumericStatus) else statusValue value ds

/-- The bytes before the first space. -/
def statusCode (rest : Text) : Option Text :=
  match rest.findIdx? (· == space) with
  | some i => subslice rest 0 i
  | none => some rest

def parseStatusAt (line : Text) : Option (Except HeadError Nat) :=
  if ¬ (text "HTTP/1.0 " <+: line ∨ text "HTTP/1.1 " <+: line) then
    some (.error .malformedStatusLine)
  else if ((line.splitOn space).filter fun token => !token.isEmpty).length < 3 then
    some (.error .tooFewStatusTokens)
  else do
    let rest ← subslice line 9 line.length
    let code ← statusCode rest
    if code = [] ∨ ¬ code.all isDigit then some (.error .nonNumericStatus)
    else statusValue 0 code

def parseHeaderAt (line : Text) : Option (Except HeadError HeaderUpdate) :=
  match line.findIdx? (· == colon) with
  | none => some (.error .malformedHeader)
  | some i => do
    let name ← trimAscii (← subslice line 0 i)
    let value ← trimAscii (← subslice line (i + 1) line.length)
    if eqIgnoreCase name (text "transfer-encoding") then
      some (.ok { transferEncoding := true, contentLength := none })
    else if eqIgnoreCase name (text "content-length") then
      if value = [] then
        some (.error .malformedHeader)
      else
        match parseLength 0 value with
        | none => some (.error .malformedHeader)
        | some parsed => some (.ok { transferEncoding := false, contentLength := some parsed })
    else
      some (.ok { transferEncoding := false, contentLength := none })

def actionAt (state : HeadState) (line : Text) : Option Action :=
  match state with
  | .status => do
    match ← parseStatusAt line with
    | .ok status => some (.status status)
    | .error error => some (.fail error)
  | .headers =>
    if line = [] then
      some .finish
    else do
      match ← parseHeaderAt line with
      | .ok update => some (.header update)
      | .error error => some (.fail error)
  | .done => some .skip

structure HeadParserAt where
  state : HeadState
  terminal : Option HeadEvent
  line : Vector UInt8 maxHeadBytes
  lineLen : Nat
  total : Nat
  status : Nat
  contentLength : Option Nat
  transferEncoding : Bool

namespace HeadParserAt

def new : HeadParserAt where
  state := .status
  terminal := none
  line := Vector.replicate maxHeadBytes 0
  lineLen := 0
  total := 0
  status := 0
  contentLength := none
  transferEncoding := false

/-- The parser with the line in place of the buffer. -/
def view (p : HeadParserAt) : HeadParser where
  state := p.state
  terminal := p.terminal
  line := p.line.toList.take p.lineLen
  total := p.total
  status := p.status
  contentLength := p.contentLength
  transferEncoding := p.transferEncoding

/-- A function that uses neither the line nor the count. -/
def lift (f : HeadParser → HeadEvent × HeadParser) (p : HeadParserAt) :
    HeadEvent × HeadParserAt :=
  let (event, q) := f p.view
  (event, { p with
    state := q.state
    terminal := q.terminal
    status := q.status
    contentLength := q.contentLength
    transferEncoding := q.transferEncoding })

/-- Where the line ends without one trailing carriage return. -/
def lineEnd (p : HeadParserAt) : Option Nat :=
  if 0 < p.lineLen then do
    let last ← p.line[p.lineLen - 1]?
    some (if last = carriageReturn then p.lineLen - 1 else p.lineLen)
  else
    some p.lineLen

/-- `&self.line[..end]`. -/
def lineAt (p : HeadParserAt) : Option Text := do
  let stop ← p.lineEnd
  subslice p.line.toList 0 stop

def read (p : HeadParserAt) (b : UInt8) : Option (HeadEvent × HeadParserAt) :=
  let p := { p with total := p.total + 1 }
  if maxHeadBytes < p.total then
    some (p.lift fun q => q.reject .oversizedHeader)
  else if b ≠ lineFeed then
    if maxHeadBytes ≤ p.lineLen then
      some (p.lift fun q => q.reject .malformedHeader)
    else do
      let line ← setAt p.line p.lineLen b
      some (.needMore, { p with line, lineLen := p.lineLen + 1 })
  else do
    let action ← actionAt p.state (← p.lineAt)
    let p := { p with lineLen := 0 }
    some (p.lift fun q => q.act action)

def push (p : HeadParserAt) (b : UInt8) : Option (HeadEvent × HeadParserAt) :=
  match p.terminal with
  | some event => some (event, p)
  | none => p.read b

/-- The parser after the bytes of `s`. -/
def feed (p : HeadParserAt) : List UInt8 → Option HeadParserAt
  | [] => some p
  | b :: s => do
    let (_, q) ← p.push b
    q.feed s

end HeadParserAt

/-! ## Lines -/

section

variable {line : Text} {i : Nat}

theorem subslice_eq {start stop : Nat} (hstart : start ≤ stop) (hstop : stop ≤ line.length) :
    subslice line start stop = some (slice line start stop) :=
  if_pos ⟨hstart, hstop⟩

theorem subslice_from {start : Nat} (h : start ≤ line.length) :
    subslice line start line.length = some (line.drop start) := by
  rw [subslice_eq h le_rfl, slice, List.take_length]

theorem subslice_to (h : i ≤ line.length) : subslice line 0 i = some (line.take i) :=
  subslice_eq (Nat.zero_le i) h

/-- Up to the first `c`, and behind it. -/
theorem findIdx_split {c : UInt8} (h : line.findIdx? (· == c) = some i) :
    i < line.length ∧ line.take i = line.takeWhile (· != c) ∧
      line.drop (i + 1) = (line.dropWhile (· != c)).drop 1 := by
  obtain ⟨hlt, hidx⟩ := List.findIdx?_eq_some_iff_findIdx_eq.mp h
  have hnot : (fun x : UInt8 => !(x != c)) = (· == c) := by
    funext x
    simp [bne]
  refine ⟨hlt, ?_, ?_⟩
  · rw [List.takeWhile_eq_take_findIdx_not, hnot, hidx]
  · rw [List.dropWhile_eq_drop_findIdx_not, hnot, hidx, List.drop_drop]

/-- The sum stays far below the range of `u32`, whatever the number of digits. -/
theorem statusValue_eq {ds : Text} (h : ∀ d ∈ ds, isDigit d = true) {value : UInt32}
    (hvalue : value.toNat < 2 ^ 16) :
    statusValue value ds = some (match checkedDecimal (2 ^ 16) value.toNat ds with
      | none => .error .nonNumericStatus
      | some value => .ok value) := by
  induction ds generalizing value with
  | nil => rfl
  | cons d ds ih =>
    have hcons := List.forall_mem_cons.mp h
    have hdigit : d.toNat ≤ 57 := (isDigit_iff.mp hcons.1).2
    have hsmall : pushDigit value.toNat d < 2 ^ 32 := by
      unfold pushDigit
      omega
    have hnat : (UInt32.ofNat (pushDigit value.toNat d)).toNat = pushDigit value.toNat d :=
      UInt32.toNat_ofNat_of_lt' hsmall
    rw [statusValue, checkedPush_eq value hcons.1, if_pos hsmall, checkedDecimal]
    show (if _ then _ else _) = _
    by_cases hfits : pushDigit value.toNat d < 2 ^ 16
    · have hlow : ¬ 65535 < UInt32.ofNat (pushDigit value.toNat d) := by
        rw [UInt32.lt_iff_toNat_lt, hnat]
        show ¬ 65535 < _
        omega
      rw [if_neg hlow, if_pos hfits, ih hcons.2 (by rw [hnat]; exact hfits), hnat]
    · have hhigh : 65535 < UInt32.ofNat (pushDigit value.toNat d) := by
        rw [UInt32.lt_iff_toNat_lt, hnat]
        show 65535 < _
        omega
      rw [if_pos hhigh, if_neg hfits]

theorem statusCode_eq (rest : Text) : statusCode rest = some (rest.takeWhile (· != space)) := by
  unfold statusCode
  cases hfind : rest.findIdx? (· == space) with
  | some i =>
    obtain ⟨hlt, htake, -⟩ := findIdx_split hfind
    rw [← htake]
    exact subslice_to (Nat.le_of_lt hlt)
  | none =>
    have hall := List.findIdx?_eq_none_iff.mp hfind
    have hkept : rest.takeWhile (· != space) = rest :=
      List.takeWhile_eq_self_iff.mpr fun b hb => by simp [bne, hall b hb]
    rw [hkept]

/-- No status line makes an index or a sum overflow. -/
theorem parseStatusAt_eq (line : Text) : parseStatusAt line = some (parseStatus line) := by
  unfold parseStatusAt parseStatus
  by_cases hstart : ¬ (text "HTTP/1.0 " <+: line ∨ text "HTTP/1.1 " <+: line)
  · rw [if_pos hstart, if_pos hstart]
  rw [if_neg hstart, if_neg hstart]
  by_cases htokens : ((line.splitOn space).filter fun token => !token.isEmpty).length < 3
  · rw [if_pos htokens, if_pos htokens]
  rw [if_neg htokens, if_neg htokens]
  have hlength : 9 ≤ line.length := by
    rcases not_not.mp hstart with h | h <;> exact h.length_le
  rw [subslice_from hlength]
  show (statusCode (line.drop 9)).bind _ = _
  rw [statusCode_eq, Option.bind_some]
  dsimp only
  generalize (line.drop 9).takeWhile (· != space) = code
  by_cases hdigits : code = [] ∨ ¬ code.all isDigit
  · simp only [if_pos hdigits]
  · have hall : ∀ d ∈ code, isDigit d = true :=
      List.all_eq_true.mp (not_not.mp (not_or.mp hdigits).2)
    have hzero : (0 : UInt32).toNat < 2 ^ 16 := by decide
    simp only [if_neg hdigits]
    exact statusValue_eq hall hzero

theorem parseHeaderAt_eq (line : Text) : parseHeaderAt line = some (parseHeader line) := by
  unfold parseHeaderAt parseHeader
  cases hfind : line.findIdx? (· == colon) with
  | none =>
    have hall := List.findIdx?_eq_none_iff.mp hfind
    have hnone : colon ∉ line := fun hmem => by simpa using hall colon hmem
    rw [if_neg hnone]
  | some i =>
    obtain ⟨hlt, htake, hdrop⟩ := findIdx_split hfind
    have hmem : colon ∈ line := by
      by_contra hnot
      have hnone : line.findIdx? (· == colon) = none :=
        List.findIdx?_eq_none_iff.mpr fun b hb => beq_false_of_ne fun heq => hnot (heq ▸ hb)
      rw [hfind] at hnone
      cases hnone
    rw [if_pos hmem]
    simp only [subslice_to (Nat.le_of_lt hlt), subslice_from hlt, htake, hdrop, trimAscii_eq]
    show (if _ then _ else _) = some (if _ then _ else _)
    by_cases htransfer : eqIgnoreCase (trim (line.takeWhile (· != colon)))
        (text "transfer-encoding") = true
    · rw [if_pos htransfer, if_pos htransfer]
    rw [if_neg htransfer, if_neg htransfer]
    by_cases hlength : eqIgnoreCase (trim (line.takeWhile (· != colon)))
        (text "content-length") = true
    · rw [if_pos hlength, if_pos hlength]
      by_cases hempty : trim ((line.dropWhile (· != colon)).drop 1) = []
      · rw [if_pos hempty, if_pos hempty]
      · rw [if_neg hempty, if_neg hempty]
        cases parseLength 0 (trim ((line.dropWhile (· != colon)).drop 1)) <;> rfl
    · rw [if_neg hlength, if_neg hlength]

theorem actionAt_eq (state : HeadState) (line : Text) :
    actionAt state line = some (HeadParser.action state line) := by
  cases state with
  | status =>
    unfold actionAt HeadParser.action
    rw [parseStatusAt_eq]
    cases parseStatus line <;> rfl
  | headers =>
    unfold actionAt HeadParser.action
    by_cases hempty : line = []
    · simp only [if_pos hempty]
    · simp only [if_neg hempty, parseHeaderAt_eq]
      cases parseHeader line <;> rfl
  | done => rfl

end

/-! ## One byte -/

namespace HeadParserAt

variable {p q : HeadParserAt} {b : UInt8} {event : HeadEvent}

/-- The line fits what was counted, and the count the limit. -/
structure InBounds (p : HeadParserAt) : Prop where
  lineLen_le : p.lineLen ≤ p.total
  total_le : p.total ≤ maxHeadBytes + 1
  live : p.terminal = none → p.total ≤ maxHeadBytes

theorem inBounds_new : new.InBounds :=
  ⟨Nat.le_refl _, Nat.zero_le _, fun _ => Nat.zero_le _⟩

/-- While no event is latched there is room for a byte that is counted. -/
theorem InBounds.lineLen_lt (h : p.InBounds) (hroom : p.total + 1 ≤ maxHeadBytes) :
    p.lineLen < maxHeadBytes := by
  have hle := h.lineLen_le
  omega

theorem lineAt_eq (h : p.lineLen ≤ maxHeadBytes) :
    p.lineAt = some (dropCr (p.line.toList.take p.lineLen)) := by
  have hlength : p.line.toList.length = maxHeadBytes := Vector.length_toList
  have hto : ∀ stop ≤ p.lineLen, subslice p.line.toList 0 stop = some (p.line.toList.take stop) :=
    fun stop hstop => subslice_to (by rw [hlength]; exact Nat.le_trans hstop h)
  unfold lineAt lineEnd dropCr
  rcases Nat.eq_zero_or_pos p.lineLen with hzero | hpos
  · rw [hzero]
    rfl
  · have hlast : p.lineLen - 1 < p.line.toList.length := by omega
    have hget : p.line[p.lineLen - 1]? = some p.line.toList[p.lineLen - 1] := by
      rw [← Vector.getElem?_toList, List.getElem?_eq_getElem hlast]
    have hgetLast : (p.line.toList.take p.lineLen).getLast? =
        some p.line.toList[p.lineLen - 1] := by
      rw [List.getLast?_take, if_neg hpos.ne', List.getElem?_eq_getElem hlast]
      rfl
    have hdropLast : (p.line.toList.take p.lineLen).dropLast =
        p.line.toList.take (p.lineLen - 1) := by
      rw [List.dropLast_eq_take, List.take_take, List.length_take]
      congr 1
      omega
    rw [if_pos hpos, hget, hgetLast, hdropLast]
    by_cases hcr : p.line.toList[p.lineLen - 1] = carriageReturn
    · show (subslice p.line.toList 0 (if _ then _ else _)) = some (if _ then _ else _)
      rw [if_pos hcr, if_pos (congrArg some hcr)]
      exact hto _ (Nat.sub_le _ _)
    · show (subslice p.line.toList 0 (if _ then _ else _)) = some (if _ then _ else _)
      rw [if_neg hcr, if_neg fun h => hcr (Option.some.inj h)]
      exact hto _ le_rfl

theorem lift_view {f : HeadParser → HeadEvent × HeadParser}
    (hline : (f p.view).2.line = p.view.line) (htotal : (f p.view).2.total = p.view.total) :
    (p.lift f).2.view = (f p.view).2 := by
  unfold lift
  rcases hf : f p.view with ⟨event, q⟩
  rw [hf] at hline htotal
  show HeadParser.mk q.state q.terminal p.view.line p.view.total q.status q.contentLength
    q.transferEncoding = q
  rw [← hline, ← htotal]

/-- What a line asks for leaves line and count as they are, and latches an event or asks
for more. -/
structure Keeps (q : HeadParser) (next : HeadEvent × HeadParser) : Prop where
  line : next.2.line = q.line
  total : next.2.total = q.total
  latches : next.1 = .needMore → next.2.terminal = q.terminal

theorem keeps_finishWith (q : HeadParser) {event : HeadEvent} (h : event ≠ .needMore) :
    Keeps q (q.finishWith event) :=
  ⟨rfl, rfl, fun hmore => absurd hmore h⟩

theorem keeps_finish (q : HeadParser) : Keeps q q.finish := by
  unfold HeadParser.finish HeadParser.reject HeadParser.complete
  split
  · exact keeps_finishWith q nofun
  split
  · exact keeps_finishWith q nofun
  split
  · exact keeps_finishWith q nofun
  split <;> exact keeps_finishWith q nofun

theorem keeps_act (q : HeadParser) (action : Action) : Keeps q (q.act action) := by
  cases action with
  | skip => exact ⟨rfl, rfl, fun _ => rfl⟩
  | status value => exact ⟨rfl, rfl, fun _ => rfl⟩
  | fail error => exact keeps_finishWith q nofun
  | finish => exact keeps_finish q
  | header update =>
    obtain ⟨transferEncoding, contentLength⟩ := update
    cases contentLength with
    | none => cases transferEncoding <;> exact ⟨rfl, rfl, fun _ => rfl⟩
    | some length =>
      have hlength : ∀ r : HeadParser, r.line = q.line → r.total = q.total →
          r.terminal = q.terminal → Keeps q (if r.contentLength.isSome then
            r.reject .duplicateContentLength
          else
            (.needMore, { r with contentLength := some length })) := by
        intro r hline htotal hterminal
        split
        · exact ⟨hline, htotal, nofun⟩
        · exact ⟨hline, htotal, fun _ => hterminal⟩
      cases transferEncoding with
      | false => exact hlength q rfl rfl rfl
      | true => exact hlength { q with transferEncoding := true } rfl rfl rfl

/-- A step over the buffer is that of the parser, without a panic and in bounds. -/
structure Steps (p : HeadParserAt) (b : UInt8) (event : HeadEvent) (q : HeadParserAt) : Prop where
  push : p.push b = some (event, q)
  view : p.view.push b = (event, q.view)
  inBounds : q.InBounds
  /-- A byte is counted, and either more is asked for or an event latched. -/
  counted : p.terminal = none → q.total = p.total + 1 ∧ (event = .needMore → q.terminal = none)
  full : p.terminal = none → p.total = maxHeadBytes → event ≠ .needMore

/-- A byte that is counted first and then acted upon. -/
theorem steps_lift {r : HeadParserAt} {f : HeadParser → HeadEvent × HeadParser}
    (hpush : p.push b = some (r.lift f)) (hview : p.view.push b = f r.view)
    (hkeeps : Keeps r.view (f r.view)) (hterminal : r.terminal = none)
    (htotal : r.total = p.total + 1) (hline : r.lineLen ≤ r.total)
    (hle : r.total ≤ maxHeadBytes + 1)
    (hover : maxHeadBytes < r.total → (f r.view).1 ≠ .needMore ∧ (f r.view).2.terminal ≠ none) :
    Steps p b (f r.view).1 (r.lift f).2 where
  push := hpush
  view := by rw [hview, lift_view hkeeps.line hkeeps.total]
  inBounds := by
    refine ⟨hline, hle, fun hnone => ?_⟩
    by_contra hgt
    exact (hover (Nat.lt_of_not_le hgt)).2 hnone
  counted _ := ⟨htotal, fun hmore => (hkeeps.latches hmore).trans hterminal⟩
  full _ hfull := (hover (by omega)).1

theorem push_of_live (h : p.terminal = none) : p.push b = p.read b := by rw [push, h]

theorem view_push_of_live (h : p.terminal = none) : p.view.push b = p.view.read b := by
  rw [HeadParser.push, view, h]

/-- The byte after the limit is refused. -/
theorem InBounds.steps_oversized (h : p.InBounds) (hterminal : p.terminal = none)
    (hover : maxHeadBytes < p.total + 1) : ∃ event q, Steps p b event q := by
  have hlive := h.live hterminal
  have hline := h.lineLen_le
  refine ⟨_, _, steps_lift (r := { p with total := p.total + 1 })
    (f := fun q => q.reject .oversizedHeader) ((push_of_live hterminal).trans (if_pos hover))
    ((view_push_of_live hterminal).trans (if_pos hover)) (keeps_finishWith _ nofun) hterminal rfl
    (Nat.le_succ_of_le hline) (Nat.succ_le_succ hlive) fun _ => ⟨nofun, nofun⟩⟩

theorem toList_take_set {line : Vector UInt8 maxHeadBytes} {n : Nat} (h : n < maxHeadBytes) :
    (line.set n b h).toList.take (n + 1) = line.toList.take n ++ [b] := by
  have hlength : n < line.toList.length := by rw [Vector.length_toList]; exact h
  rw [Vector.toList_set, List.take_succ_eq_append_getElem (by rw [List.length_set]; exact hlength),
    List.getElem_set_self, List.take_set_of_le (Nat.le_refl n)]

/-- A byte of a line is stored within the buffer. -/
theorem InBounds.steps_stored (h : p.InBounds) (hterminal : p.terminal = none)
    (hroom : p.total + 1 ≤ maxHeadBytes) (hbyte : b ≠ lineFeed) :
    ∃ event q, Steps p b event q := by
  have hline := h.lineLen_le
  have hlt := h.lineLen_lt hroom
  have hlength : p.view.line.length = p.lineLen := by
    show (p.line.toList.take p.lineLen).length = p.lineLen
    rw [List.length_take, Vector.length_toList]
    omega
  have hset : setAt p.line p.lineLen b = some (p.line.set p.lineLen b hlt) := dif_pos hlt
  refine ⟨.needMore, { p with
      total := p.total + 1
      line := p.line.set p.lineLen b hlt
      lineLen := p.lineLen + 1 }, ?_, ?_, ?_, ?_, ?_⟩
  · rw [push_of_live hterminal]
    unfold read
    dsimp only
    rw [if_neg (Nat.not_lt.mpr hroom), if_pos hbyte, if_neg (Nat.not_le.mpr hlt), hset]
    rfl
  · rw [view_push_of_live hterminal]
    unfold HeadParser.read
    have hnot : ¬ maxHeadBytes < p.view.total + 1 := Nat.not_lt.mpr hroom
    dsimp only
    rw [if_neg hnot, if_pos hbyte, hlength, if_neg (Nat.not_le.mpr hlt)]
    unfold view
    rw [toList_take_set hlt]
  · exact ⟨Nat.succ_le_succ hline, Nat.le_succ_of_le hroom, fun _ => hroom⟩
  · exact fun _ => ⟨rfl, fun _ => hterminal⟩
  · intro _ hfull
    omega

/-- A line feed hands over the line that is stored. -/
theorem InBounds.steps_line (h : p.InBounds) (hterminal : p.terminal = none)
    (hroom : p.total + 1 ≤ maxHeadBytes) : ∃ event q, Steps p lineFeed event q := by
  have hline := h.lineLen_le
  have hlt := h.lineLen_lt hroom
  let r : HeadParserAt := { p with total := p.total + 1, lineLen := 0 }
  let action := HeadParser.action p.state (dropCr p.view.line)
  have hnot : ¬ maxHeadBytes < p.total + 1 := Nat.not_lt.mpr hroom
  have hpush : p.push lineFeed = some (r.lift fun q => q.act action) := by
    have hlineAt := lineAt_eq (p := { p with total := p.total + 1 }) (Nat.le_of_lt hlt)
    rw [push_of_live hterminal]
    unfold read
    dsimp only
    rw [if_neg hnot, if_neg (not_not.mpr rfl), hlineAt]
    show (actionAt p.state _).bind _ = _
    rw [actionAt_eq]
    rfl
  have hview : p.view.push lineFeed = r.view.act action := by
    rw [view_push_of_live hterminal]
    have hnotView : ¬ maxHeadBytes < p.view.total + 1 := hnot
    unfold HeadParser.read
    dsimp only
    rw [if_neg hnotView, if_neg (not_not.mpr rfl)]
    rfl
  exact ⟨_, _, steps_lift hpush hview (keeps_act _ _) hterminal rfl (Nat.zero_le _)
    (Nat.le_succ_of_le hroom) fun hover => absurd hover hnot⟩

theorem InBounds.steps (h : p.InBounds) (b : UInt8) : ∃ event q, Steps p b event q := by
  cases hterminal : p.terminal with
  | some event =>
    have hnone : p.terminal ≠ none := by rw [hterminal]; exact nofun
    refine ⟨event, p, ?_, ?_, h, fun hlive => absurd hlive hnone, fun hlive => absurd hlive hnone⟩
    · rw [push, hterminal]
    · rw [HeadParser.push, view, hterminal]
  | none =>
    by_cases hover : maxHeadBytes < p.total + 1
    · exact h.steps_oversized hterminal hover
    have hroom : p.total + 1 ≤ maxHeadBytes := Nat.le_of_not_lt hover
    by_cases hbyte : b = lineFeed
    · rw [hbyte]
      exact h.steps_line hterminal hroom
    · exact h.steps_stored hterminal hroom hbyte

/-! ## Every stream -/

theorem InBounds.feed (h : p.InBounds) (s : List UInt8) :
    ∃ q, p.feed s = some q ∧ q.InBounds ∧ q.view = p.view.feed s := by
  induction s generalizing p with
  | nil => exact ⟨p, rfl, h, rfl⟩
  | cons b s ih =>
    obtain ⟨event, q, hsteps⟩ := h.steps b
    obtain ⟨r, hfeed, hr, hview⟩ := ih hsteps.inBounds
    refine ⟨r, ?_, hr, ?_⟩
    · rw [HeadParserAt.feed, hsteps.push]
      exact hfeed
    · rw [HeadParser.feed_cons, hsteps.view, hview]

theorem feed_snoc (p : HeadParserAt) (s : List UInt8) (b : UInt8) :
    p.feed (s ++ [b]) = (p.feed s).bind fun q => (q.push b).map Prod.snd := by
  induction s generalizing p with
  | nil =>
    rw [List.nil_append, feed, feed, Option.bind_some]
    cases p.push b <;> rfl
  | cons c s ih =>
    rw [List.cons_append, feed, feed]
    cases hpush : p.push c with
    | none => rfl
    | some next =>
      show next.2.feed (s ++ [b]) = _
      rw [ih]
      rfl

/-- The event of byte number `n` of an endless stream. -/
def eventAt (s : Nat → UInt8) (n : Nat) : Option HeadEvent := do
  let p ← new.feed ((List.range n).map s)
  let (event, _) ← p.push (s n)
  some event

theorem eventAt_eq {s : Nat → UInt8} {n : Nat} (hfeed : new.feed ((List.range n).map s) = some p)
    (hpush : p.push (s n) = some (event, q)) : eventAt s n = some event := by
  rw [eventAt, hfeed]
  show (p.push (s n)).bind (fun next => some next.1) = _
  rw [hpush]
  rfl

/-- As long as more is asked for, every byte is counted. -/
theorem live_of_needMore {s : Nat → UInt8} {n : Nat}
    (h : ∀ k < n, eventAt s k = some .needMore) :
    ∃ p, new.feed ((List.range n).map s) = some p ∧ p.InBounds ∧ p.terminal = none ∧
      p.total = n := by
  induction n with
  | zero => exact ⟨new, rfl, inBounds_new, rfl, rfl⟩
  | succ n ih =>
    obtain ⟨p, hfeed, hp, hterminal, htotal⟩ := ih fun k hk => h k (Nat.lt_succ_of_lt hk)
    obtain ⟨event, q, hsteps⟩ := hp.steps (s n)
    have hevent : event = .needMore := by
      have hlast := h n (Nat.lt_succ_self n)
      rw [eventAt_eq hfeed hsteps.push] at hlast
      exact Option.some.inj hlast
    refine ⟨q, ?_, hsteps.inBounds, (hsteps.counted hterminal).2 hevent, ?_⟩
    · rw [List.range_succ, List.map_append, List.map_singleton, feed_snoc, hfeed,
        Option.bind_some, hsteps.push]
      rfl
    · rw [(hsteps.counted hterminal).1, htotal]

/-- An endless stream is decided by its first bytes. -/
theorem exists_terminal (s : Nat → UInt8) :
    ∃ n ≤ maxHeadBytes, ∃ event, eventAt s n = some event ∧ event ≠ .needMore := by
  by_cases hsilent : ∀ k < maxHeadBytes, eventAt s k = some .needMore
  · obtain ⟨p, hfeed, hp, hterminal, htotal⟩ := live_of_needMore hsilent
    obtain ⟨event, q, hsteps⟩ := hp.steps (s maxHeadBytes)
    exact ⟨maxHeadBytes, le_rfl, event, eventAt_eq hfeed hsteps.push,
      hsteps.full hterminal htotal⟩
  · push Not at hsilent
    obtain ⟨k, hk, hevent⟩ := hsilent
    obtain ⟨p, hfeed, hp, -⟩ := inBounds_new.feed ((List.range k).map s)
    obtain ⟨event, q, hsteps⟩ := hp.steps (s k)
    have hat := eventAt_eq hfeed hsteps.push
    exact ⟨k, Nat.le_of_lt hk, event, hat, fun heq => hevent (by rw [hat, heq])⟩

end HeadParserAt

end Ota
end GarageDoor
