/-
The topics, and the formatting of MQTT payloads into a caller's buffer.
-/
import GarageDoor.Library.Buffer
import GarageDoor.Library.Loop
import GarageDoor.Library.Numeral

namespace GarageDoor
namespace Mqtt

open Library Ascii

def topicTrigger : String := "garagedoor/trigger"
def topicStatus : String := "garagedoor/status"
def topicReset : String := "garagedoor/reset"
def topicOnchange : String := "garagedoor/onchange"
def topicStatusResponse : String := "garagedoor/status/response"

/-- How a step of the encoder ends, with the buffer it leaves.  An index out of range
panics. -/
inductive Encoded (n : Nat) (α : Type) where
  | ok (value : α) (buf : Vector UInt8 n)
  | truncated (buf : Vector UInt8 n)
  | panic

def Encoded.bind {n : Nat} {α β : Type} (x : Encoded n α)
    (f : α → Vector UInt8 n → Encoded n β) : Encoded n β :=
  match x with
  | .ok value buf => f value buf
  | .truncated buf => .truncated buf
  | .panic => .panic

section

variable {n : Nat}

/-- Appends a payload at `pos` and gives the position behind it. -/
def write (payload : Text) (pos : Nat) (buf : Vector UInt8 n) : Encoded n Nat :=
  let stop := pos + payload.length
  if n < stop then
    .truncated buf
  else
    match copySlice buf pos stop payload with
    | none => .panic
    | some buf => .ok stop buf

/-- The digits of a number found so far, lowest first, and what is left of it. -/
structure DigitBuf where
  digits : Vector UInt8 10
  len : Nat
  value : UInt32

theorem div_ten_lt {value : UInt32} (h : 0 < value) : (value / 10).toNat < value.toNat := by
  rw [UInt32.lt_iff_toNat_lt] at h
  rw [UInt32.toNat_div]
  exact Nat.div_lt_self h (by decide)

def digitLoop : Loop DigitBuf (Option (Vector UInt8 10 × Nat)) where
  body s :=
    if 0 < s.value then
      match setAt s.digits s.len (48 + (s.value % 10).toUInt8) with
      | none => .inr none
      | some digits => .inl { digits, len := s.len + 1, value := s.value / 10 }
    else
      .inr (some (s.digits, s.len))
  variant s := s.value.toNat
  decreases := by
    intro s s' h
    by_cases hpos : 0 < s.value
    · rw [if_pos hpos] at h
      cases hset : setAt s.digits s.len (48 + (s.value % 10).toUInt8) with
      | none => simp [hset] at h
      | some digits =>
        simp only [hset, Sum.inl.injEq] at h
        rw [← h]
        exact div_ten_lt hpos
    · rw [if_neg hpos] at h
      cases h

/-- The digits of `value` and how many there are. -/
def u32Digits (value : UInt32) : Option (Vector UInt8 10 × Nat) :=
  if value = 0 then
    some ((Vector.replicate 10 0).set 0 48, 1)
  else
    digitLoop.run { digits := Vector.replicate 10 0, len := 0, value }

/-- Writes the first `len` digits, the last of them first. -/
def writeDigits (digits : Vector UInt8 10) : Nat → Nat → Vector UInt8 n → Encoded n Nat
  | 0, pos, buf => .ok pos buf
  | index + 1, pos, buf =>
    if n ≤ pos then
      .truncated buf
    else
      match digits[index]? with
      | none => .panic
      | some digit =>
        match setAt buf pos digit with
        | none => .panic
        | some buf => writeDigits digits index (pos + 1) buf

def writeU32 (value : UInt32) (pos : Nat) (buf : Vector UInt8 n) : Encoded n Nat :=
  match u32Digits value with
  | none => .panic
  | some (digits, len) => writeDigits digits len pos buf

def finish (len : Nat) (buf : Vector UInt8 n) : Encoded n Text :=
  if len ≤ n then
    match fromUtf8 (buf.toList.take len) with
    | none => .truncated buf
    | some payload => .ok payload buf
  else
    .panic

def writeExact (payload : Text) (buf : Vector UInt8 n) : Encoded n Text :=
  if n < payload.length then
    .truncated buf
  else
    match copySlice buf 0 payload.length payload with
    | none => .panic
    | some buf => finish payload.length buf

def formatOnchange (isOpen : Bool) (buf : Vector UInt8 n) : Encoded n Text :=
  writeExact (if isOpen then text "\x7b\"open\":true\x7d" else text "\x7b\"open\":false\x7d") buf

def formatStatusResponse (uuid : Text) (isOpen : Bool) (version : UInt32)
    (buf : Vector UInt8 n) : Encoded n Text :=
  (write (text "\x7b\"uuid\":\"") 0 buf
    |>.bind (write uuid)
    |>.bind (write (text "\",\"result\":\x7b\"open\":"))
    |>.bind (write (text (if isOpen then "true" else "false")))
    |>.bind (write (text ",\"version\":"))
    |>.bind (writeU32 version)
    |>.bind (write (text "\x7d\x7d"))
    |>.bind finish)

/-! ## What is written -/

/-- The buffer begins with `t` and is as before behind it, unless `t` does not fit. -/
def Wrote (buf₀ : Vector UInt8 n) (t : Text) : Encoded n Nat → Prop
  | .ok pos buf => t.length ≤ n ∧ pos = t.length ∧ buf = overwrite buf₀ t
  | .truncated _ => n < t.length
  | .panic => False

variable {buf₀ : Vector UInt8 n} {t : Text} {x : Encoded n Nat}

theorem wrote_start (buf₀ : Vector UInt8 n) : Wrote buf₀ [] (.ok 0 buf₀) :=
  ⟨Nat.zero_le n, rfl, (overwrite_nil buf₀).symm⟩

/-- A step that appends `p` to what was written. -/
theorem Wrote.bind {p : Text} {f : Nat → Vector UInt8 n → Encoded n Nat} (h : Wrote buf₀ t x)
    (hf : t.length ≤ n → Wrote buf₀ (t ++ p) (f t.length (overwrite buf₀ t))) :
    Wrote buf₀ (t ++ p) (x.bind f) := by
  cases x with
  | ok pos buf =>
    obtain ⟨hle, rfl, rfl⟩ := h
    exact hf hle
  | truncated buf =>
    show n < (t ++ p).length
    rw [List.length_append]
    exact Nat.lt_of_lt_of_le h (Nat.le_add_right _ _)
  | panic => exact h.elim

theorem Wrote.write (h : Wrote buf₀ t x) (p : Text) :
    Wrote buf₀ (t ++ p) (x.bind (Mqtt.write p)) := by
  refine h.bind fun _ => ?_
  unfold Mqtt.write
  by_cases hfit : n < t.length + p.length
  · simp only [hfit, if_true]
    show n < (t ++ p).length
    rwa [List.length_append]
  · have hle : t.length + p.length ≤ n := Nat.le_of_not_lt hfit
    simp only [hfit, if_false, copySlice_overwrite hle]
    exact ⟨by rwa [List.length_append], List.length_append.symm, rfl⟩

/-! ## The digits of a number -/

def noDigits : Vector UInt8 10 := Vector.replicate 10 0

/-- The numeral of what is still to be divided down to nothing. -/
def pendingDigits (v : Nat) : Text := if v = 0 then [] else numeral v

theorem pendingDigits_of_pos {v : Nat} (h : 0 < v) :
    pendingDigits v = pendingDigits (v / 10) ++ [digitByte (v % 10)] := by
  unfold pendingDigits
  rw [if_neg (Nat.ne_of_gt h)]
  by_cases hlt : v < 10
  · rw [if_pos (Nat.div_eq_of_lt hlt), List.nil_append, numeral_of_lt hlt, Nat.mod_eq_of_lt hlt]
  · rw [if_neg (by omega), numeral_of_ge (by omega)]

theorem lowest_digit (value : UInt32) :
    48 + (value % 10).toUInt8 = digitByte (value.toNat % 10) := by
  have hlt : value.toNat % 10 < 10 := Nat.mod_lt _ (by decide)
  apply UInt8.toNat_inj.mp
  rw [digitByte_toNat hlt, UInt8.toNat_add, UInt32.toNat_toUInt8, UInt32.toNat_mod]
  show (48 + value.toNat % 10 % 256) % 256 = 48 + value.toNat % 10
  omega

theorem u32Digits_eq (value : UInt32) :
    ∃ ds, u32Digits value = some (overwrite noDigits ds, ds.length) ∧ ds.length ≤ 10 ∧
      numeral value.toNat = ds.reverse := by
  by_cases hzero : value = 0
  · subst hzero
    refine ⟨[48], ?_, by decide, numeral_of_lt (by decide)⟩
    rw [u32Digits, if_pos rfl]
    decide
  have hlength : (numeral value.toNat).length ≤ 10 :=
    numeral_length (Nat.lt_trans value.toNat_lt (by decide))
  have hstart : pendingDigits value.toNat = numeral value.toNat :=
    if_neg fun h => hzero (UInt32.toNat_inj.mp h)
  rw [u32Digits, if_neg hzero]
  -- The digits found are the last ones of the numeral, in reverse.
  refine Loop.run_step_rule
    (I := fun s => ∃ ds, s.digits = overwrite noDigits ds ∧ s.len = ds.length ∧
      numeral value.toNat = pendingDigits s.value.toNat ++ ds.reverse)
    (Q := fun r => ∃ ds, r = some (overwrite noDigits ds, ds.length) ∧ ds.length ≤ 10 ∧
      numeral value.toNat = ds.reverse)
    ⟨[], (overwrite_nil noDigits).symm, rfl, by simp [hstart]⟩ ?_
  rintro ⟨digits, len, rest⟩ ⟨ds, rfl, rfl, hds⟩
  simp only at hds
  by_cases hpos : 0 < rest
  · have hnat : 0 < rest.toNat := by simpa [UInt32.lt_iff_toNat_lt] using hpos
    rw [pendingDigits_of_pos hnat, List.append_assoc, ← lowest_digit] at hds
    have hroom : ds.length < 10 := by
      rw [hds] at hlength
      simp only [List.length_append, List.length_reverse, List.length_singleton] at hlength
      omega
    have hbody :
        digitLoop.body { digits := overwrite noDigits ds, len := ds.length, value := rest } =
          .inl { digits := overwrite noDigits (ds ++ [48 + (rest % 10).toUInt8])
                 len := ds.length + 1
                 value := rest / 10 } := by
      simp only [digitLoop, hpos, if_true, setAt_overwrite hroom]
    refine .inl ⟨_, hbody, ds ++ [48 + (rest % 10).toUInt8], rfl, by simp, ?_⟩
    rw [List.reverse_append, hds, UInt32.toNat_div]
    rfl
  · have hnil : rest = 0 := by
      apply UInt32.toNat_inj.mp
      have : ¬ 0 < rest.toNat := by simpa [UInt32.lt_iff_toNat_lt] using hpos
      simp
      omega
    subst hnil
    refine .inr ⟨some (overwrite noDigits ds, ds.length), ?_, ds, rfl, ?_, hds⟩
    · simp only [digitLoop, hpos, if_false]
    · have hds : numeral value.toNat = ds.reverse := hds
      rw [hds, List.length_reverse] at hlength
      exact hlength

theorem writeDigits_wrote {ds : Text} (hds : ds.length ≤ 10) {index : Nat}
    (hindex : index ≤ ds.length) (ht : t.length ≤ n) :
    Wrote buf₀ (t ++ (ds.take index).reverse)
      (writeDigits (overwrite noDigits ds) index t.length (overwrite buf₀ t)) := by
  induction index generalizing t with
  | zero =>
    rw [List.take_zero, List.reverse_nil, List.append_nil]
    exact ⟨ht, rfl, rfl⟩
  | succ index ih =>
    have hlt : index < ds.length := hindex
    have htake : (ds.take (index + 1)).reverse = ds[index] :: (ds.take index).reverse := by
      rw [List.take_succ_eq_append_getElem hlt, List.reverse_append]
      rfl
    have hdigit : (overwrite noDigits ds)[index]? = some ds[index] := by
      simp [overwrite, List.getElem?_eq_getElem hlt, Nat.lt_of_lt_of_le hlt hds]
    rw [writeDigits, htake]
    by_cases hfull : n ≤ t.length
    · rw [if_pos hfull]
      show n < (t ++ ds[index] :: (ds.take index).reverse).length
      rw [List.length_append, List.length_cons]
      omega
    · have hroom : t.length < n := Nat.lt_of_not_le hfull
      have hstep := ih (t := t ++ [ds[index]]) (Nat.le_of_lt hlt) (by
        rw [List.length_append]
        exact hroom)
      rw [if_neg hfull]
      simp only [hdigit, setAt_overwrite hroom]
      rwa [List.append_assoc, List.length_append] at hstep

theorem Wrote.writeU32 (h : Wrote buf₀ t x) (value : UInt32) :
    Wrote buf₀ (t ++ numeral value.toNat) (x.bind (Mqtt.writeU32 value)) := by
  obtain ⟨ds, hdigits, hlength, hnumeral⟩ := u32Digits_eq value
  refine h.bind fun ht => ?_
  have hwrote : Wrote buf₀ (t ++ (ds.take ds.length).reverse) _ :=
    writeDigits_wrote hlength (Nat.le_refl _) ht
  rw [List.take_length, ← hnumeral] at hwrote
  simp only [Mqtt.writeU32, hdigits]
  exact hwrote

/-! ## The payloads -/

/-- The payload is `t`, and the buffer behind it is as before, unless `t` does not fit. -/
def Encodes (buf₀ : Vector UInt8 n) (t : Text) : Encoded n Text → Prop
  | .ok payload buf => t.length ≤ n ∧ payload = t ∧ buf = overwrite buf₀ t
  | .truncated _ => n < t.length
  | .panic => False

theorem Wrote.finish (h : Wrote buf₀ t x) (ht : ValidUtf8 t) :
    Encodes buf₀ t (x.bind Mqtt.finish) := by
  cases x with
  | ok pos buf =>
    obtain ⟨hle, rfl, rfl⟩ := h
    have hread : fromUtf8 ((overwrite buf₀ t).toList.take t.length) = some t := by
      rw [take_overwrite hle]
      exact fromUtf8_of_valid ht
    show Encodes buf₀ t (Mqtt.finish t.length (overwrite buf₀ t))
    simp only [Mqtt.finish, if_pos hle, hread]
    exact ⟨hle, rfl, rfl⟩
  | truncated buf => exact h
  | panic => exact h.elim

/-- The status response with this `uuid`, as it stands in the text. -/
def statusResponse (uuid : Text) (isOpen : Bool) (version : UInt32) : Text :=
  text "\x7b\"uuid\":\"" ++ uuid ++ text "\",\"result\":\x7b\"open\":" ++
    text (if isOpen then "true" else "false") ++ text ",\"version\":" ++
    numeral version.toNat ++ text "\x7d\x7d"

/-- Responses with different states are different texts, whatever stands in them as `uuid`. -/
theorem statusResponse_isOpen {uuid uuid' : Text} {isOpen isOpen' : Bool} {version : UInt32}
    (h : statusResponse uuid isOpen version = statusResponse uuid' isOpen' version) :
    isOpen = isOpen' := by
  have hlast : ∀ {s s' : Text}, s ++ text "true" ≠ s' ++ text "false" := by
    intro s s' heq
    have htrue : text "true" = [116, 114] ++ [117, 101] := by decide
    have hfalse : text "false" = [102, 97, 108] ++ [115, 101] := by decide
    rw [htrue, hfalse, ← List.append_assoc, ← List.append_assoc] at heq
    exact absurd (List.append_inj' heq rfl).2 (by decide)
  simp only [statusResponse] at h
  have hfront := List.append_cancel_right (List.append_cancel_right (List.append_cancel_right h))
  cases isOpen <;> cases isOpen'
  · rfl
  · exact absurd hfront.symm hlast
  · exact absurd hfront hlast
  · rfl

theorem validUtf8_numeral (v : Nat) : ValidUtf8 (numeral v) := validUtf8_text _

theorem statusResponse_utf8 {uuid : Text} (h : ValidUtf8 uuid) (isOpen : Bool)
    (version : UInt32) : ValidUtf8 (statusResponse uuid isOpen version) := by
  unfold statusResponse
  repeat
    first
      | exact h
      | exact validUtf8_text _
      | exact validUtf8_numeral _
      | apply validUtf8_append

theorem formatStatusResponse_encodes {uuid : Text} (h : ValidUtf8 uuid) (isOpen : Bool)
    (version : UInt32) (buf : Vector UInt8 n) :
    Encodes buf (statusResponse uuid isOpen version)
      (formatStatusResponse uuid isOpen version buf) := by
  have hopening := (wrote_start buf).write (text "\x7b\"uuid\":\"")
  have hbody := (((((hopening.write uuid).write (text "\",\"result\":\x7b\"open\":")).write
    (text (if isOpen then "true" else "false"))).write (text ",\"version\":")).writeU32
    version).write (text "\x7d\x7d")
  exact hbody.finish (statusResponse_utf8 h isOpen version)

/-- The state notification. -/
def onchange (isOpen : Bool) : Text :=
  if isOpen then text "\x7b\"open\":true\x7d" else text "\x7b\"open\":false\x7d"

theorem writeExact_encodes (h : ValidUtf8 t) (buf : Vector UInt8 n) :
    Encodes buf t (writeExact t buf) := by
  unfold writeExact
  by_cases hfit : n < t.length
  · rw [if_pos hfit]
    exact hfit
  · have hle : t.length ≤ n := Nat.le_of_not_lt hfit
    have hcopy : copySlice buf 0 t.length t = some (overwrite buf t) := by
      have hempty : ([] : Text).length + t.length ≤ n := by simpa using hle
      have := @copySlice_overwrite _ n buf [] t hempty
      simpa [overwrite_nil] using this
    have hwrote : Wrote buf t (.ok t.length (overwrite buf t)) := ⟨hle, rfl, rfl⟩
    simp only [hfit, if_false, hcopy]
    exact hwrote.finish h

theorem formatOnchange_encodes (isOpen : Bool) (buf : Vector UInt8 n) :
    Encodes buf (onchange isOpen) (formatOnchange isOpen buf) :=
  writeExact_encodes (by cases isOpen <;> exact validUtf8_text _) buf

/-! ## Every buffer -/

/-- Behind what is copied over its front a buffer is as before. -/
theorem Encodes.ok {payload : Text} {buf : Vector UInt8 n} (h : Encodes buf₀ t (.ok payload buf)) :
    t.length ≤ n ∧ payload = t ∧ buf.toList.take t.length = t ∧
      ∀ i, t.length ≤ i → buf[i]? = buf₀[i]? := by
  obtain ⟨hle, rfl, rfl⟩ := h
  refine ⟨hle, rfl, take_overwrite hle, ?_⟩
  intro i hi
  by_cases hlt : i < n
  · simp [overwrite, hlt, List.getElem?_eq_none hi]
  · simp [hlt]

/-- The status response is written exactly where it fits, and nothing else is. -/
theorem formatStatusResponse_exact (uuid : String) (isOpen : Bool) (version : UInt32)
    (buf : Vector UInt8 n) :
    let t := statusResponse (text uuid) isOpen version
    let out := formatStatusResponse (text uuid) isOpen version buf
    ((∃ buf', out = .ok t buf') ↔ t.length ≤ n) ∧
      (∀ payload buf', out = .ok payload buf' → payload = t ∧ buf'.toList.take t.length = t ∧
        ∀ i, t.length ≤ i → buf'[i]? = buf[i]?) ∧
      ((∃ buf', out = .truncated buf') ↔ n < t.length) ∧
      out ≠ .panic := by
  have h := formatStatusResponse_encodes (validUtf8_text uuid) isOpen version buf
  simp only
  generalize formatStatusResponse (text uuid) isOpen version buf = out at h ⊢
  cases out with
  | ok payload buf' =>
    obtain ⟨hle, rfl, htake, hbehind⟩ := h.ok
    refine ⟨⟨fun _ => hle, fun _ => ⟨buf', rfl⟩⟩, ?_, ?_, by simp⟩
    · intro payload' buf'' heq
      cases heq
      exact ⟨rfl, htake, hbehind⟩
    · constructor
      · intro ⟨_, heq⟩
        cases heq
      · intro hlt
        omega
  | truncated buf' =>
    have hlt : n < (statusResponse (text uuid) isOpen version).length := h
    refine ⟨?_, by simp, ⟨fun _ => hlt, fun _ => ⟨buf', rfl⟩⟩, by simp⟩
    constructor
    · intro ⟨_, heq⟩
      cases heq
    · intro hle
      omega
  | panic => exact h.elim

end

end Mqtt
end GarageDoor
