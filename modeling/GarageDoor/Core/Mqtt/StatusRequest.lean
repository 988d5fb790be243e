/-
The status request codec against its grammar.

A request is a JSON object, and only the first of its own members that is called
`uuid` counts.
-/
import GarageDoor.Core.Mqtt.Complete

namespace GarageDoor
namespace Mqtt

open Library Ascii Json

/-! ## The first `uuid` -/

def firstUuid (ms : List (Text × Json)) : Option Json :=
  (ms.find? fun m => m.1 = text "uuid").map Prod.snd

/-- What a request with these members is answered. -/
def statusFor (ms : List (Text × Json)) : Except StatusRequestError Text :=
  match firstUuid ms with
  | none => .error .missingUuid
  | some (.string []) => .error .emptyUuid
  | some (.string uuid) => .ok uuid
  | some _ => .error .uuidNotString

/-- `record` over all members. -/
def recordAll (found : Option Text) :
    List (Text × Json) → Except StatusRequestError (Option Text)
  | [] => .ok found
  | (key, j) :: ms =>
    match record found key (valueOf j) with
    | .error e => .error e
    | .ok found => recordAll found ms

theorem record_first (j : Json) :
    record none (text "uuid") (valueOf j) =
      match valueOf j with
      | .string uuid => .ok (some uuid)
      | .other => .error .uuidNotString := if_pos ⟨rfl, rfl⟩

theorem record_other {key : Text} (hkey : key ≠ text "uuid") (found : Option Text)
    (value : Value) : record found key value = .ok found := if_neg fun h => hkey h.1

theorem record_found (u key : Text) (value : Value) :
    record (some u) key value = .ok (some u) := if_neg fun h => nomatch h.2

theorem record_error {found : Option Text} {key : Text} {value : Value} {e : StatusRequestError}
    (h : record found key value = .error e) : e = .uuidNotString := by
  unfold record at h
  by_cases hfirst : key = text "uuid" ∧ found = none
  · rw [if_pos hfirst] at h
    cases value with
    | string uuid => cases h
    | other =>
      cases h
      rfl
  · rw [if_neg hfirst] at h
    cases h

theorem recordAll_found (u : Text) (ms : List (Text × Json)) :
    recordAll (some u) ms = .ok (some u) := by
  induction ms with
  | nil => rfl
  | cons m ms ih =>
    rw [recordAll, record_found]
    exact ih

/-- After the first `uuid` nothing is recorded. -/
theorem recordAll_statusOf (ms : List (Text × Json)) :
    (recordAll none ms).bind statusOf = statusFor ms := by
  induction ms with
  | nil => rfl
  | cons m ms ih =>
    obtain ⟨key, j⟩ := m
    by_cases hkey : key = text "uuid"
    · have hfirst : firstUuid ((key, j) :: ms) = some j := by
        simp [firstUuid, hkey]
      rw [statusFor, hfirst, recordAll, hkey, record_first]
      cases j with
      | string raw =>
        simp only [valueOf, recordAll_found]
        cases raw <;> rfl
      | number raw => rfl
      | literal raw => rfl
      | array items => rfl
      | object members => rfl
    · have hfirst : firstUuid ((key, j) :: ms) = firstUuid ms := by
        simp [firstUuid, hkey]
      rw [statusFor, hfirst, recordAll, record_other hkey]
      exact ih

/-! ## The members of the outermost object -/

section

variable {bytes rest t : List UInt8} {s : Scanner} {ms : List (Text × Json)}

theorem statusMembers_skipWs (h : At bytes s rest) (fuel : Nat) (found : Option Text) :
    statusMembers fuel found s.skipWs = statusMembers fuel found s := by
  cases fuel with
  | zero => rfl
  | succ fuel => rw [statusMembers, statusMembers, member_skipWs h]

/-- The text begins with members up to the closing brace, and they were recorded. -/
def Recorded (found : Option Text) (rest : List UInt8) (found' : Option Text)
    (after : List UInt8) : Prop :=
  ∃ ms t, Derives (.members ms) t ∧ rest = t ++ 125 :: after ∧ recordAll found ms = .ok found'

theorem statusMembers_scans {fuel : Nat} (found : Option Text) (h : At bytes s rest)
    (hfuel : 2 * rest.length + 2 ≤ fuel) :
    Scans bytes (Recorded found rest) (statusMembers fuel found s) := by
  induction fuel generalizing s rest found with
  | zero => omega
  | succ fuel ih =>
    rw [statusMembers]
    refine (member_scans h fun s' rest' hat' hlt =>
      (parse_scans bytes fuel).1 s' rest' hat' (by omega)).bind fun kv s₁ rest₁ hat₁ hkv => ?_
    have hlt := hkv.length_lt
    obtain ⟨key, value⟩ := kv
    cases hrecord : record found key value with
    | error e =>
      simp only [hrecord]
      exact .inr (record_error hrecord)
    | ok found₁ =>
      simp only [hrecord]
      refine (separator_scans (Q := Recorded found₁) hat₁ fun s' rest' hat' hlt' =>
        ih found₁ hat' (by omega)).mono fun found' after hafter => ?_
      obtain ⟨j, t, hderives, rfl, rfl, -⟩ := hkv
      obtain ⟨w, hw, ⟨rfl, rfl⟩ | ⟨rest', rfl, ms, ts, hms, rfl, hall⟩⟩ := hafter
      · refine ⟨[(key, j)], t ++ w, .lastMember (hderives w hw), by simp, ?_⟩
        simp only [recordAll, hrecord]
      · refine ⟨(key, j) :: ms, (t ++ w) ++ 44 :: ts, .nextMember (hderives w hw) hms, by simp, ?_⟩
        simp only [recordAll, hrecord, hall]

/-- The scan ends as `recordAll` says, and stands behind the object if it succeeds. -/
def Finds (bytes rest : List UInt8) (x : Scanned (Option Text)) :
    Except StatusRequestError (Option Text) → Prop
  | .ok found => ∃ s', x = .ok found s' ∧ At bytes s' rest
  | .error e => x = .error e

theorem statusMembers_finds {fuel : Nat} (found : Option Text) (hms : Derives (.members ms) t)
    (h : At bytes s (t ++ 125 :: rest)) (hfuel : 2 * (t ++ 125 :: rest).length + 2 ≤ fuel) :
    Finds bytes rest (statusMembers fuel found s) (recordAll found ms) := by
  induction ms generalizing t s found fuel with
  | nil => cases hms
  | cons m ms ih =>
    obtain ⟨fuel, rfl⟩ : ∃ n, fuel = n + 1 := ⟨fuel - 1, by omega⟩
    rw [statusMembers]
    cases hms with
    | @lastMember key j _ hm =>
      obtain ⟨s₁, w, hs₁, hw, hat₁⟩ :=
        derives_reads bytes hm s 125 rest fuel h (.inr (.inr rfl)) (by omega)
      rw [hs₁, Scanned.ok_bind, recordAll]
      cases hrecord : record found key (valueOf j) with
      | error e =>
        simp only [hrecord]
        rfl
      | ok found₁ =>
        simp only [hrecord]
        exact separator_close (statusMembers fuel found₁) found₁ hat₁ hw (by decide) (by decide)
    | @nextMember key j u _ ts hm hs =>
      have hat : At bytes s (u ++ 44 :: (ts ++ 125 :: rest)) := by
        simpa [List.append_assoc] using h
      simp only [List.append_assoc, List.length_append, List.cons_append, List.length_cons]
        at hfuel
      obtain ⟨s₁, w, hs₁, hw, hat₁⟩ := derives_reads bytes hm s 44 _ fuel hat (.inl rfl) (by
        simp only [List.length_append, List.length_cons]
        omega)
      rw [hs₁, Scanned.ok_bind, recordAll]
      cases hrecord : record found key (valueOf j) with
      | error e =>
        simp only [hrecord]
        rfl
      | ok found₁ =>
        simp only [hrecord]
        obtain ⟨s₂, hs₂, hat₂⟩ := separator_more 125 (statusMembers fuel found₁) found₁ hat₁ hw
        rw [hs₂]
        refine ih found₁ hs hat₂ ?_
        simp only [List.length_append, List.length_cons]
        omega

/-! ## The payload -/

theorem outermost_scans {fuel : Nat} (h : At bytes s (123 :: rest))
    (hfuel : 2 * rest.length + 2 ≤ fuel) :
    Scans bytes (fun found after => ∃ ms t, Derives (.value (.object ms)) t ∧
      123 :: rest = t ++ after ∧ recordAll none ms = .ok found)
      (s.skipNested 125 none (statusMembers fuel none)) := by
  have hloop := statusMembers_scans none h.advance hfuel
  refine (skipNested_scans h (statusMembers_skipWs h.advance fuel none) hloop).mono
    fun found after hafter => ?_
  rcases hafter with ⟨rfl, w, hw, rfl⟩ | ⟨ms, t, hms, rfl, hall⟩
  · exact ⟨[], _, .emptyObject hw, by simp, rfl⟩
  · exact ⟨ms, _, .object hms, by simp, hall⟩

theorem outermost_finds {fuel : Nat} (hobject : Derives (.value (.object ms)) t)
    (h : At bytes s (t ++ rest)) (hfuel : 2 * (t ++ rest).length ≤ fuel) :
    Finds bytes rest (s.skipNested 125 none (statusMembers fuel none)) (recordAll none ms) := by
  cases hobject with
  | @emptyObject w hw =>
    have hopen : At bytes s (123 :: (w ++ 125 :: rest)) := by simpa using h
    exact skipNested_empty none (statusMembers fuel none) hopen hw (by decide)
  | @object _ u hms =>
    have hopen : At bytes s (123 :: (u ++ 125 :: rest)) := by simpa using h
    have hfinds : Finds bytes rest (statusMembers fuel none s.advance) (recordAll none ms) := by
      refine statusMembers_finds none hms hopen.advance ?_
      simp only [List.length_append, List.length_cons] at hfuel ⊢
      omega
    obtain ⟨v, u', rfl, hv⟩ := members_head hms
    have hinside : At bytes s (123 :: (v ++ 34 :: (u' ++ 125 :: rest))) := by
      simpa [List.append_assoc] using hopen
    rwa [skipNested_loop hinside hv (by decide) (by decide)
      (statusMembers_skipWs hopen.advance fuel none)]

end

section

variable {p : List UInt8} {ms : List (Text × Json)}

/-- The scanner in front of the first byte that is not whitespace. -/
theorem at_first (p : List UInt8) :
    At p (Scanner.skipWs { bytes := p, pos := 0 }) (p.dropWhile isWs) := (At.start p).skipWs

theorem first_byte (p : List UInt8) :
    (Scanner.skipWs { bytes := p, pos := 0 }).peek = p.find? fun b => !isWs b := by
  rw [(at_first p).peek, List.find?_eq_head?_dropWhile_not]
  simp

theorem parseStatusRequest_notObject (h : p.find? (fun b => !isWs b) ≠ some 123) :
    parseStatusRequest p = .error .notObject := by
  rw [← first_byte] at h
  simp only [parseStatusRequest, ne_eq, h, not_false_iff, if_true]

theorem object_head {t : Text} (h : Derives (.value (.object ms)) t) : ∃ t', t = 123 :: t' := by
  cases h with
  | emptyObject hw => exact ⟨_, rfl⟩
  | object h => exact ⟨_, rfl⟩

/-- The scan of the outermost object, from the first byte that is not whitespace. -/
def scanObject (p : List UInt8) : Scanned (Option Text) :=
  (Scanner.skipWs { bytes := p, pos := 0 }).skipNested 125 none
    (statusMembers (2 * p.length + 2) none)

theorem parseStatusRequest_opened (h : p.find? (fun b => !isWs b) = some 123) :
    parseStatusRequest p = atEnd (scanObject p) := by
  rw [← first_byte] at h
  simp only [parseStatusRequest, h, ne_eq, not_true_eq_false, if_false]
  rfl

theorem atEnd_ok {rest : List UInt8} {s : Scanner} (h : At p s rest) (found : Option Text) :
    atEnd (.ok found s) =
      if rest.dropWhile isWs = [] then statusOf found else .error .malformed := by
  have hws := h.skipWs
  have hpos := hws.pos_add
  simp only [atEnd, hws.bytes_eq]
  by_cases hend : rest.dropWhile isWs = []
  · rw [hend, List.length_nil, Nat.add_zero] at hpos
    rw [if_pos hend, if_neg (not_not.mpr hpos)]
  · have := List.length_pos_iff.mpr hend
    rw [if_neg hend, if_pos (by omega)]

/-- A request of the grammar is answered by the first `uuid` among its own members. -/
theorem parseStatusRequest_object (h : Derives (.item (.object ms)) p) :
    parseStatusRequest p = statusFor ms := by
  cases h with
  | @item w _ t w' hw hobject hw' =>
    have hstart : At (w ++ t ++ w') { bytes := w ++ t ++ w', pos := 0 } (w ++ (t ++ w')) := by
      rw [← List.append_assoc]
      exact At.start _
    have hat := hstart.skipWs_to_value hw hobject
    have hfirst : (w ++ t ++ w').find? (fun b => !isWs b) = some 123 := by
      obtain ⟨t', rfl⟩ := object_head hobject
      rw [← first_byte]
      exact hat.peek
    have hfinds : Finds (w ++ t ++ w') w' (scanObject (w ++ t ++ w')) (recordAll none ms) := by
      refine outermost_finds hobject hat ?_
      simp only [List.length_append]
      omega
    rw [parseStatusRequest_opened hfirst, ← recordAll_statusOf ms]
    cases hall : recordAll none ms with
    | error e =>
      rw [hall] at hfinds
      rw [show scanObject _ = .error e from hfinds]
      rfl
    | ok found =>
      rw [hall] at hfinds
      obtain ⟨s', hs', hat'⟩ := hfinds
      have hdrop : w'.dropWhile isWs = [] :=
        List.dropWhile_eq_nil_iff.mpr fun b hb => isWs_iff.mpr (hw' b hb)
      rw [hs', atEnd_ok hat', if_pos hdrop]
      rfl

theorem scanObject_scans (h : p.find? (fun b => !isWs b) = some 123) :
    Scans p (fun found after => ∃ w ms t, Ws w ∧ Derives (.value (.object ms)) t ∧
      p = w ++ t ++ after ∧ recordAll none ms = .ok found) (scanObject p) := by
  rw [← first_byte] at h
  have hat := at_first p
  have hsplit := List.takeWhile_append_dropWhile (p := isWs) (l := p)
  have hlength := congrArg List.length hsplit
  rw [List.length_append] at hlength
  have hhead := hat.peek.symm.trans h
  generalize p.dropWhile isWs = rest at hat hsplit hlength hhead
  cases rest with
  | nil => cases hhead
  | cons b rest =>
    cases hhead
    rw [List.length_cons] at hlength
    refine (outermost_scans hat (by omega)).mono fun found after hafter => ?_
    obtain ⟨ms, t, hobject, htext, hall⟩ := hafter
    refine ⟨p.takeWhile isWs, ms, t, ws_takeWhile p, hobject, ?_, hall⟩
    rw [List.append_assoc, ← htext, hsplit]

/-- A payload that opens an object is a request of the grammar, or the scanner turns it
down. -/
theorem parseStatusRequest_sound (h : p.find? (fun b => !isWs b) = some 123) :
    (∃ ms, Derives (.item (.object ms)) p) ∨
      parseStatusRequest p = .error .malformed ∨ parseStatusRequest p = .error .uuidNotString := by
  have hscans := scanObject_scans h
  rw [parseStatusRequest_opened h]
  cases hscan : scanObject p with
  | outOfFuel =>
    rw [hscan] at hscans
    exact hscans.elim
  | error e =>
    rw [hscan] at hscans
    rcases hscans with rfl | rfl
    · exact .inr (.inl rfl)
    · exact .inr (.inr rfl)
  | ok found s =>
    rw [hscan] at hscans
    obtain ⟨after, hat, w, ms, t, hw, hobject, rfl, -⟩ := hscans
    rw [atEnd_ok hat]
    by_cases hend : after.dropWhile isWs = []
    · refine .inl ⟨ms, .item hw hobject fun b hb => isWs_iff.mp ?_⟩
      exact List.dropWhile_eq_nil_iff.mp hend b hb
    · rw [if_neg hend]
      exact .inr (.inl rfl)

/-! ## What is accepted, and why the rest is not -/

theorem statusFor_cases (ms : List (Text × Json)) :
    (firstUuid ms = none ∧ statusFor ms = .error .missingUuid) ∨
    (firstUuid ms = some (.string []) ∧ statusFor ms = .error .emptyUuid) ∨
    (∃ u, u ≠ [] ∧ firstUuid ms = some (.string u) ∧ statusFor ms = .ok u) ∨
    (∃ j, (∀ u, j ≠ .string u) ∧ firstUuid ms = some j ∧
      statusFor ms = .error .uuidNotString) := by
  unfold statusFor
  cases firstUuid ms with
  | none => exact .inl ⟨rfl, rfl⟩
  | some j =>
    cases j with
    | string raw =>
      cases raw with
      | nil => exact .inr (.inl ⟨rfl, rfl⟩)
      | cons b raw => exact .inr (.inr (.inl ⟨b :: raw, by simp, rfl, rfl⟩))
    | number raw => exact .inr (.inr (.inr ⟨_, by simp, rfl, rfl⟩))
    | literal raw => exact .inr (.inr (.inr ⟨_, by simp, rfl, rfl⟩))
    | array items => exact .inr (.inr (.inr ⟨_, by simp, rfl, rfl⟩))
    | object members => exact .inr (.inr (.inr ⟨_, by simp, rfl, rfl⟩))

theorem statusFor_ok {u : Text} :
    statusFor ms = .ok u ↔ firstUuid ms = some (.string u) ∧ u ≠ [] := by
  rcases statusFor_cases ms with ⟨h, h'⟩ | ⟨h, h'⟩ | ⟨v, hv, h, h'⟩ | ⟨j, hj, h, h'⟩
  · simp [h, h']
  · simp only [h, h']
    simp
  · simp only [h, h']
    constructor
    · rintro ⟨⟩
      exact ⟨rfl, hv⟩
    · rintro ⟨⟨⟩, -⟩
      rfl
  · simp [h, h', hj]

theorem statusFor_missingUuid : statusFor ms = .error .missingUuid ↔ firstUuid ms = none := by
  rcases statusFor_cases ms with ⟨h, h'⟩ | ⟨h, h'⟩ | ⟨v, hv, h, h'⟩ | ⟨j, hj, h, h'⟩ <;>
    simp [h, h']

theorem statusFor_emptyUuid :
    statusFor ms = .error .emptyUuid ↔ firstUuid ms = some (.string []) := by
  rcases statusFor_cases ms with ⟨h, h'⟩ | ⟨h, h'⟩ | ⟨v, hv, h, h'⟩ | ⟨j, hj, h, h'⟩
  · simp [h, h']
  · simp [h, h']
  · simp [h, h', hv]
  · simp [h, h', hj]

/-- What only a request of the grammar is answered. -/
theorem parseStatusRequest_iff {r : Except StatusRequestError Text}
    (hobject : r ≠ .error .notObject) (hmalformed : r ≠ .error .malformed)
    (hstring : r ≠ .error .uuidNotString) :
    parseStatusRequest p = r ↔ ∃ ms, Derives (.item (.object ms)) p ∧ statusFor ms = r := by
  constructor
  · intro hr
    by_cases hfirst : p.find? (fun b => !isWs b) = some 123
    · rcases parseStatusRequest_sound hfirst with ⟨ms, hms⟩ | h | h
      · exact ⟨ms, hms, (parseStatusRequest_object hms).symm.trans hr⟩
      · exact absurd (hr.symm.trans h) hmalformed
      · exact absurd (hr.symm.trans h) hstring
    · exact absurd (hr.symm.trans (parseStatusRequest_notObject hfirst)) hobject
  · intro ⟨ms, hms, hr⟩
    rw [parseStatusRequest_object hms, hr]

theorem parseStatusRequest_notObject_iff :
    parseStatusRequest p = .error .notObject ↔ p.find? (fun b => !isWs b) ≠ some 123 := by
  constructor
  · intro hr hfirst
    rcases parseStatusRequest_sound hfirst with ⟨ms, hms⟩ | h | h
    · rw [parseStatusRequest_object hms] at hr
      rcases statusFor_cases ms with ⟨-, h⟩ | ⟨-, h⟩ | ⟨u, -, -, h⟩ | ⟨j, -, -, h⟩ <;>
        cases hr.symm.trans h
    · cases hr.symm.trans h
    · cases hr.symm.trans h
  · exact parseStatusRequest_notObject

/-- The codec decides its grammar, and answers with the raw body of the first `uuid` of
the outermost object. -/
theorem parseStatusRequest_grammar (p : List UInt8) :
    (∀ u, parseStatusRequest p = .ok u ↔
      ∃ ms, Derives (.item (.object ms)) p ∧ firstUuid ms = some (.string u) ∧ u ≠ []) ∧
    (∀ ms, Derives (.item (.object ms)) p → parseStatusRequest p = statusFor ms) ∧
    (∀ q ms ms', Derives (.item (.object ms)) p → Derives (.item (.object ms')) q →
      firstUuid ms = firstUuid ms' → parseStatusRequest p = parseStatusRequest q) ∧
    (parseStatusRequest p = .error .notObject ↔ p.find? (fun b => !isWs b) ≠ some 123) ∧
    (parseStatusRequest p = .error .missingUuid ↔
      ∃ ms, Derives (.item (.object ms)) p ∧ firstUuid ms = none) ∧
    (parseStatusRequest p = .error .emptyUuid ↔
      ∃ ms, Derives (.item (.object ms)) p ∧ firstUuid ms = some (.string [])) := by
  refine ⟨fun u => ?_, fun ms => parseStatusRequest_object, ?_, parseStatusRequest_notObject_iff,
    ?_, ?_⟩
  · rw [parseStatusRequest_iff (by simp) (by simp) (by simp)]
    simp only [statusFor_ok]
  · intro q ms ms' hp hq hfirst
    rw [parseStatusRequest_object hp, parseStatusRequest_object hq, statusFor, statusFor, hfirst]
  · rw [parseStatusRequest_iff (by simp) (by simp) (by simp)]
    simp only [statusFor_missingUuid]
  · rw [parseStatusRequest_iff (by simp) (by simp) (by simp)]
    simp only [statusFor_emptyUuid]

end

end Mqtt
end GarageDoor
