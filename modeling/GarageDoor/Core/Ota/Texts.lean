/-
The published texts: versions and digests with whitespace around them.

`trim_ascii` and `parse_sha256_hex` are stated here with the indices of the source; they
never leave the text and find what `trim` and `hexBytes` describe.
-/
import GarageDoor.Core.Ota.Policy
import GarageDoor.Library.Hex
import GarageDoor.Library.Numeral

namespace GarageDoor
namespace Ota

open Library Ascii

/-! ## Trimming by index -/

/-- `while start < end && input[start].is_ascii_whitespace()`; an index out of range panics. -/
def trimStart (input : List UInt8) : Loop Nat (Option Nat) where
  body start :=
    if start < input.length then
      match input[start]? with
      | none => .inr none
      | some b => if isWhitespace b then .inl (start + 1) else .inr (some start)
    else
      .inr (some start)
  variant start := input.length - start
  decreases := by
    intro start start' h
    by_cases hlt : start < input.length
    · simp only [if_pos hlt, List.getElem?_eq_getElem hlt] at h
      split at h
      · cases h
        exact Nat.sub_succ_lt_self _ _ hlt
      · cases h
    · simp [hlt] at h

/-- `while end > start && input[end - 1].is_ascii_whitespace()`. -/
def trimEnd (input : List UInt8) (start : Nat) : Loop Nat (Option Nat) where
  body stop :=
    if start < stop then
      match input[stop - 1]? with
      | none => .inr none
      | some b => if isWhitespace b then .inl (stop - 1) else .inr (some stop)
    else
      .inr (some stop)
  variant stop := stop
  decreases := by
    intro stop stop' h
    by_cases hlt : start < stop
    · cases hb : input[stop - 1]? with
      | none => simp [hlt, hb] at h
      | some b =>
        simp only [if_pos hlt, hb] at h
        split at h
        · cases h
          omega
        · cases h
    · simp [hlt] at h

/-- `none` is a panic. -/
def trimAscii (input : List UInt8) : Option (List UInt8) :=
  match (trimStart input).run 0 with
  | none => none
  | some start =>
    match (trimEnd input start).run input.length with
    | none => none
    | some stop =>
      if start ≤ stop ∧ stop ≤ input.length then some ((input.take stop).drop start) else none

theorem trimStart_run (input : List UInt8) :
    ∃ start, (trimStart input).run 0 = some start ∧ start ≤ input.length ∧
      input.drop start = input.dropWhile isWhitespace := by
  refine Loop.run_step_rule
    (I := fun start => start ≤ input.length ∧
      (input.drop start).dropWhile isWhitespace = input.dropWhile isWhitespace)
    (Q := fun r => ∃ start, r = some start ∧ start ≤ input.length ∧
      input.drop start = input.dropWhile isWhitespace) ⟨Nat.zero_le _, rfl⟩ ?_
  intro start ⟨hle, hdrop⟩
  by_cases hlt : start < input.length
  · have hget := List.getElem?_eq_getElem hlt
    rw [List.drop_eq_getElem_cons hlt] at hdrop
    by_cases hws : isWhitespace input[start] = true
    · rw [List.dropWhile_cons_of_pos hws] at hdrop
      refine .inl ⟨start + 1, ?_, hlt, hdrop⟩
      simp only [trimStart, if_pos hlt, hget, if_pos hws]
    · rw [List.dropWhile_cons_of_neg hws, ← List.drop_eq_getElem_cons hlt] at hdrop
      refine .inr ⟨some start, ?_, start, rfl, hle, hdrop⟩
      simp only [trimStart, if_pos hlt, hget, if_neg hws]
  · rw [List.drop_eq_nil_of_le (Nat.le_of_not_lt hlt)] at hdrop
    refine .inr ⟨some start, ?_, start, rfl, hle, ?_⟩
    · simp only [trimStart, if_neg hlt]
    · rw [List.drop_eq_nil_of_le (Nat.le_of_not_lt hlt), ← hdrop]
      rfl

theorem trimEnd_run {input : List UInt8} {start : Nat} (hstart : start ≤ input.length) :
    ∃ stop, (trimEnd input start).run input.length = some stop ∧ start ≤ stop ∧
      stop ≤ input.length ∧
      (input.take stop).drop start = (input.drop start).rdropWhile isWhitespace := by
  refine Loop.run_step_rule
    (I := fun stop => start ≤ stop ∧ stop ≤ input.length ∧
      ((input.take stop).drop start).rdropWhile isWhitespace =
        (input.drop start).rdropWhile isWhitespace)
    (Q := fun r => ∃ stop, r = some stop ∧ start ≤ stop ∧ stop ≤ input.length ∧
      (input.take stop).drop start = (input.drop start).rdropWhile isWhitespace)
    ⟨hstart, Nat.le_refl _, by rw [List.take_length]⟩ ?_
  intro stop ⟨hle, hstop, hdrop⟩
  by_cases hlt : start < stop
  · have hlast : stop - 1 < input.length := by omega
    have hget := List.getElem?_eq_getElem hlast
    have hsnoc : (input.take stop).drop start =
        (input.take (stop - 1)).drop start ++ [input[stop - 1]] := by
      have htake : input.take stop = input.take (stop - 1) ++ [input[stop - 1]] := by
        conv => lhs; rw [show stop = stop - 1 + 1 by omega]
        exact List.take_succ_eq_append_getElem hlast
      rw [htake, List.drop_append_of_le_length]
      rw [List.length_take]
      omega
    rw [hsnoc] at hdrop
    by_cases hws : isWhitespace input[stop - 1] = true
    · rw [List.rdropWhile_concat_pos _ _ _ hws] at hdrop
      refine .inl ⟨stop - 1, ?_, by omega, by omega, hdrop⟩
      simp only [trimEnd, if_pos hlt, hget, if_pos hws]
    · rw [List.rdropWhile_concat_neg _ _ _ hws, ← hsnoc] at hdrop
      refine .inr ⟨some stop, ?_, stop, rfl, hle, hstop, hdrop⟩
      simp only [trimEnd, if_pos hlt, hget, if_neg hws]
  · have hempty : (input.take stop).drop start = [] :=
      List.drop_eq_nil_of_le (by rw [List.length_take]; omega)
    refine .inr ⟨some stop, ?_, stop, rfl, hle, hstop, ?_⟩
    · simp only [trimEnd, if_neg hlt]
    · rw [← hdrop, hempty]
      rfl

/-- The indices find what stands between the whitespace. -/
theorem trimAscii_eq (input : List UInt8) : trimAscii input = some (trim input) := by
  obtain ⟨start, hstart, hle, hfront⟩ := trimStart_run input
  obtain ⟨stop, hstop, hlow, hhigh, hback⟩ := trimEnd_run hle
  simp only [trimAscii, hstart, hstop, if_pos (And.intro hlow hhigh)]
  rw [hback, hfront]
  rfl

/-! ## The version -/

/-- `none` is a panic. -/
def parseVersionAt (body : List UInt8) : Option (Option UInt32) :=
  match trimAscii body with
  | none => none
  | some s => some (if s = [] ∨ ¬ s.all isDigit then none else s.foldlM checkedPush 0)

theorem parseVersionAt_eq (body : List UInt8) :
    parseVersionAt body = some ((parseVersion body).map UInt32.ofNat) := by
  simp only [parseVersionAt, trimAscii_eq, parseVersion]
  by_cases hgood : trim body = [] ∨ ¬ (trim body).all isDigit = true
  · rw [if_pos hgood, if_pos hgood]
    rfl
  · rw [if_neg hgood, if_neg hgood]
    rw [not_or, not_not] at hgood
    rw [foldlM_checkedPush (List.all_eq_true.mp hgood.2)]
    rfl

theorem parseVersion_eq_some {body : List UInt8} {v : Nat} : parseVersion body = some v ↔
    (trim body ≠ [] ∧ ∀ c ∈ trim body, isDigit c = true) ∧ decimal (trim body) = v ∧
      v < 2 ^ 32 :=
  guardedDecimal_eq_some (Nat.two_pow_pos 32)

/-- A version is read if the trimmed text is a number below `2 ^ 32`, and is that number. -/
theorem parseVersionAt_eq_some {body : List UInt8} {v : UInt32} :
    parseVersionAt body = some (some v) ↔
      (trim body ≠ [] ∧ ∀ c ∈ trim body, isDigit c = true) ∧ decimal (trim body) = v.toNat := by
  rw [parseVersionAt_eq, Option.some.injEq, Option.map_eq_some_iff]
  constructor
  · rintro ⟨n, hn, rfl⟩
    obtain ⟨hdigits, hvalue, hlt⟩ := parseVersion_eq_some.mp hn
    rw [UInt32.toNat_ofNat_of_lt' hlt]
    exact ⟨hdigits, hvalue⟩
  · intro ⟨hdigits, hvalue⟩
    exact ⟨v.toNat, parseVersion_eq_some.mpr ⟨hdigits, hvalue, v.toNat_lt⟩, UInt32.ofNat_toNat⟩

/-! ## The digest -/

theorem nibbles_toNat {hi lo : UInt8} (hhi : hi.toNat < 16) (hlo : lo.toNat < 16) :
    ((hi <<< 4) ||| lo).toNat = hi.toNat * 16 + lo.toNat := by
  have hlo' : lo.toNat < 2 ^ 4 := hlo
  rw [UInt8.toNat_or, UInt8.toNat_shiftLeft]
  show hi.toNat <<< 4 % 2 ^ 8 ||| lo.toNat = _
  rw [Nat.mod_eq_of_lt (by rw [Nat.shiftLeft_eq]; omega),
    ← Nat.shiftLeft_add_eq_or_of_lt hlo', Nat.shiftLeft_eq]

theorem hexNibble_digit {v : Nat} (h : v < 16) :
    hexNibble (Hex.digit v) = some (UInt8.ofNat v) := by
  revert v
  decide

theorem digit_of_ascii {n : Nat} (h : 48 ≤ n ∧ n ≤ 57 ∨ 97 ≤ n ∧ n ≤ 102) :
    ∃ v < 16, Hex.digit v = UInt8.ofNat n := by
  have hnum : ∀ n < 58, 48 ≤ n → Hex.digit (n - 48) = UInt8.ofNat n := by decide
  have hletter : ∀ n < 103, 97 ≤ n → Hex.digit (n - 87) = UInt8.ofNat n := by decide
  rcases h with h | h
  · exact ⟨n - 48, by omega, hnum n (by omega) h.1⟩
  · exact ⟨n - 87, by omega, hletter n (by omega) h.1⟩

theorem digit_of_hexNibble {c v : UInt8} (h : hexNibble c = some v) :
    v.toNat < 16 ∧ Hex.digit v.toNat = c := by
  have hrange : 48 ≤ c.toNat ∧ c.toNat ≤ 57 ∨ 97 ≤ c.toNat ∧ c.toNat ≤ 102 := by
    simp only [hexNibble, UInt8.le_iff_toNat_le] at h
    split at h
    · exact .inl ‹_›
    · split at h
      · exact .inr ‹_›
      · cases h
  obtain ⟨n, hn, hdigit⟩ := digit_of_ascii hrange
  rw [UInt8.ofNat_toNat] at hdigit
  rw [← hdigit, hexNibble_digit hn, Option.some.injEq] at h
  have hv : v.toNat = n := by
    rw [← h, UInt8.toNat_ofNat_of_lt']
    show n < 256
    omega
  rw [hv]
  exact ⟨hn, hdigit⟩

theorem hexBytes_encode (bytes : List UInt8) : hexBytes (Hex.encode bytes) = some bytes := by
  induction bytes with
  | nil => rfl
  | cons b bytes ih =>
    have hb := b.toNat_lt
    have hhi : b.toNat / 16 < 16 := by omega
    have hlo : b.toNat % 16 < 16 := by omega
    have hbyte : (UInt8.ofNat (b.toNat / 16) <<< 4) ||| UInt8.ofNat (b.toNat % 16) = b := by
      have hhi' : (UInt8.ofNat (b.toNat / 16)).toNat = b.toNat / 16 :=
        UInt8.toNat_ofNat_of_lt' (Nat.lt_trans hhi (by decide))
      have hlo' : (UInt8.ofNat (b.toNat % 16)).toNat = b.toNat % 16 :=
        UInt8.toNat_ofNat_of_lt' (Nat.lt_trans hlo (by decide))
      apply UInt8.toNat_inj.mp
      rw [nibbles_toNat (hhi'.trans_lt hhi) (hlo'.trans_lt hlo), hhi', hlo']
      omega
    rw [Hex.encode_cons, hexBytes, hexNibble_digit hhi, hexNibble_digit hlo, ih]
    show some (_ :: bytes) = _
    rw [hbyte]

theorem encode_of_hexBytes {s : Text} {bytes : List UInt8} (h : hexBytes s = some bytes) :
    s = Hex.encode bytes := by
  refine hexBytes_rule (P := fun s bytes => s = Hex.encode bytes) rfl ?_ h
  intro hi lo n m s bytes hhi hlo ih
  obtain ⟨hn, hhigh⟩ := digit_of_hexNibble hhi
  obtain ⟨hm, hlow⟩ := digit_of_hexNibble hlo
  rw [Hex.encode_cons, nibbles_toNat hn hm,
    show (n.toNat * 16 + m.toNat) / 16 = n.toNat by omega,
    show (n.toNat * 16 + m.toNat) % 16 = m.toNat by omega, hhigh, hlow, ← ih]

/-- The digest from index `i` on.  An index out of range panics (`none`); a character that is
no digit gives the text up. -/
def digestLoop (s : List UInt8) : Loop (Digest × Nat) (Option (Option Digest)) where
  body := fun (out, i) =>
    if h : i < 32 then
      match s[2 * i]? with
      | none => .inr none
      | some hi =>
        match hexNibble hi with
        | none => .inr (some none)
        | some hi =>
          match s[2 * i + 1]? with
          | none => .inr none
          | some lo =>
            match hexNibble lo with
            | none => .inr (some none)
            | some lo => .inl (out.set i ((hi <<< 4) ||| lo), i + 1)
    else
      .inr (some (some out))
  variant := fun (_, i) => 32 - i
  decreases := by
    intro (out, i) (out', i') h
    by_cases hi : i < 32
    · simp only [dif_pos hi] at h
      split at h
      · cases h
      split at h
      · cases h
      split at h
      · cases h
      split at h
      · cases h
      cases h
      show 32 - (i + 1) < 32 - i
      omega
    · simp [hi] at h

/-- `none` is a panic. -/
def parseSha256HexAt (body : List UInt8) : Option (Option Digest) :=
  match trimAscii body with
  | none => none
  | some s =>
    if s.length ≠ 64 then some none else (digestLoop s).run (Vector.replicate 32 0, 0)

theorem digestLoop_run {s : List UInt8} (hlength : s.length = 64) (zero : Digest) :
    ∃ r : Option Digest, (digestLoop s).run (zero, 0) = some r ∧
      r.map Vector.toList = hexBytes s := by
  refine Loop.run_step_rule
    (I := fun (out, i) => i ≤ 32 ∧
      hexBytes s = (hexBytes (s.drop (2 * i))).map (out.toList.take i ++ ·))
    (Q := fun r => ∃ out : Option Digest, r = some out ∧ out.map Vector.toList = hexBytes s)
    ⟨Nat.zero_le _, by simp⟩ ?_
  intro (out, i) ⟨hle, hrest⟩
  by_cases hi : i < 32
  · have hhi : 2 * i < s.length := by omega
    have hlo : 2 * i + 1 < s.length := by omega
    rw [List.drop_eq_getElem_cons hhi, List.drop_eq_getElem_cons hlo, hexBytes] at hrest
    have hgetHi := List.getElem?_eq_getElem hhi
    have hgetLo := List.getElem?_eq_getElem hlo
    cases hnibHi : hexNibble s[2 * i] with
    | none =>
      rw [hnibHi] at hrest
      exact .inr ⟨some none, by simp only [digestLoop, dif_pos hi, hgetHi, hnibHi], none, rfl,
        hrest.symm⟩
    | some n =>
      cases hnibLo : hexNibble s[2 * i + 1] with
      | none =>
        rw [hnibHi, hnibLo] at hrest
        exact .inr ⟨some none,
          by simp only [digestLoop, dif_pos hi, hgetHi, hnibHi, hgetLo, hnibLo], none, rfl,
          hrest.symm⟩
      | some m =>
        refine .inl ⟨(out.set i ((n <<< 4) ||| m), i + 1),
          by simp only [digestLoop, dif_pos hi, hgetHi, hnibHi, hgetLo, hnibLo], hi, ?_⟩
        -- The bytes before `i` stay, and the new one joins them.
        have htake : (out.set i ((n <<< 4) ||| m)).toList.take (i + 1) =
            out.toList.take i ++ [(n <<< 4) ||| m] := by
          rw [Vector.toList_set, List.take_succ_eq_append_getElem (by simpa using hi),
            List.take_set_of_le (Nat.le_refl i), List.getElem_set_self]
        rw [hnibHi, hnibLo] at hrest
        simp only [Option.map_map] at hrest
        rw [hrest, htake, Nat.mul_succ]
        refine congrArg (Option.map · _) ?_
        funext bytes
        simp
  · have hlast : i = 32 := Nat.le_antisymm hle (Nat.le_of_not_lt hi)
    refine .inr ⟨some (some out), by simp only [digestLoop, dif_neg hi], some out, rfl, ?_⟩
    have hwhole : out.toList.take 32 ++ [] = out.toList := by
      rw [List.append_nil, List.take_of_length_le (by simp)]
    rw [hrest, hlast, List.drop_eq_nil_of_le (by omega), hexBytes]
    exact (congrArg some hwhole).symm

theorem parseSha256Hex_toList {body : List UInt8} (hlength : (trim body).length = 64) :
    (parseSha256Hex body).map Vector.toList = hexBytes (trim body) := by
  rw [parseSha256Hex, dif_pos hlength]
  split
  · next hbytes => exact hbytes.symm
  · next bytes hbytes => exact hbytes.symm

/-- No index leaves the text. -/
theorem parseSha256HexAt_eq (body : List UInt8) :
    parseSha256HexAt body = some (parseSha256Hex body) := by
  simp only [parseSha256HexAt, trimAscii_eq]
  by_cases hlength : (trim body).length = 64
  · obtain ⟨r, hrun, hbytes⟩ := digestLoop_run hlength (Vector.replicate 32 0)
    have hsame : r = parseSha256Hex body := by
      rw [← parseSha256Hex_toList hlength] at hbytes
      exact Option.map_injective (fun _ _ => Vector.toList_inj.mp) hbytes
    rw [if_neg (fun h => h hlength), hrun, hsame]
  · rw [if_pos hlength, parseSha256Hex, dif_neg hlength]

theorem parseSha256Hex_eq_some {body : List UInt8} {d : Digest} :
    parseSha256Hex body = some d ↔ trim body = Hex.encode d.toList := by
  constructor
  · intro h
    have hlength : (trim body).length = 64 := by
      apply Decidable.byContradiction
      intro hne
      rw [parseSha256Hex, dif_neg hne] at h
      cases h
    have hbytes := parseSha256Hex_toList hlength
    rw [h, Option.map_some] at hbytes
    exact encode_of_hexBytes hbytes.symm
  · intro h
    have hlength : (trim body).length = 64 := by rw [h, Hex.length_encode, Vector.length_toList]
    have hbytes := parseSha256Hex_toList hlength
    rw [h, hexBytes_encode, Option.map_eq_some_iff] at hbytes
    obtain ⟨d', hd', hsame⟩ := hbytes
    rw [hd', Vector.toList_inj.mp hsame]

theorem parseSha256HexAt_eq_some {body : List UInt8} {d : Digest} :
    parseSha256HexAt body = some (some d) ↔ trim body = Hex.encode d.toList := by
  rw [parseSha256HexAt_eq, Option.some.injEq]
  exact parseSha256Hex_eq_some

theorem parseSha256HexAt_surrounded (body : Text) {before after : Text}
    (hbefore : ∀ c ∈ before, isWhitespace c = true)
    (hafter : ∀ c ∈ after, isWhitespace c = true) :
    parseSha256HexAt (before ++ body ++ after) = parseSha256HexAt body := by
  simp only [parseSha256HexAt, trimAscii_eq, trim_surrounded body hbefore hafter]

/-- `parse_sha256_hex` inverts lowercase hex, up to the whitespace around the text: an index
never leaves the text, nothing but 64 lowercase digits is accepted, a text has one digest, and
the whitespace does not matter. -/
theorem parseSha256Hex_inverse :
    (∀ body : List UInt8, ∃ r, parseSha256HexAt body = some r) ∧
    (∀ (body : List UInt8) (d : Digest),
      parseSha256HexAt body = some (some d) ↔ trim body = Hex.encode d.toList) ∧
    (∀ (body : List UInt8) (d : Digest), parseSha256HexAt body = some (some d) →
      (trim body).length = 64 ∧ ∀ c ∈ trim body, Hex.IsDigit c) ∧
    (∀ (body body' : List UInt8) (d d' : Digest), trim body = trim body' →
      parseSha256HexAt body = some (some d) → parseSha256HexAt body' = some (some d') →
      d = d') ∧
    (∀ before body after : List UInt8, (∀ c ∈ before, isWhitespace c = true) →
      (∀ c ∈ after, isWhitespace c = true) →
      parseSha256HexAt (before ++ body ++ after) = parseSha256HexAt body) := by
  refine ⟨?_, ?_, ?_, ?_, ?_⟩
  · intro body
    exact ⟨_, parseSha256HexAt_eq body⟩
  · intro body d
    exact parseSha256HexAt_eq_some
  · intro body d h
    rw [parseSha256HexAt_eq_some.mp h, Hex.length_encode, Vector.length_toList]
    exact ⟨rfl, Hex.isDigit_encode⟩
  · intro body body' d d' hsame h h'
    have henc : Hex.encode d.toList = Hex.encode d'.toList := by
      rw [← parseSha256HexAt_eq_some.mp h, ← parseSha256HexAt_eq_some.mp h', hsame]
    exact Vector.toList_inj.mp (Hex.encode_injective henc)
  · intro before body after hbefore hafter
    exact parseSha256HexAt_surrounded body hbefore hafter

end Ota
end GarageDoor
