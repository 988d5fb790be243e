/-
Classification of inbound messages, and the reply to a status request.

The `uuid` of a request is echoed as it stands in the payload, without escaping.
-/
import GarageDoor.Core.Door.Debounce
import GarageDoor.Core.Mqtt.Encode
import GarageDoor.Core.Mqtt.StatusRequest
import GarageDoor.Library.Json.Unambiguous

namespace GarageDoor
namespace Telemetry

open Library Ascii Mqtt Door

/-- Capacity for the copy of a correlation id. -/
def uuidMax : Nat := 64

/-- Capacity for an outbound payload. -/
def payloadMax : Nat := 160

inductive Action where
  | trigger
  | reset
  | status (uuid : Vector UInt8 uuidMax) (uuidLen : Nat)
  | stateChange (state : DoorState)
  | disconnected
  | unknown
  deriving DecidableEq

def isOpen (state : DoorState) : Bool := state == .opened

/-- Classifies an inbound message; the `uuid` of a status request is copied out of it. -/
def classify (topic : String) (payload : List UInt8) : Action :=
  if topic = topicTrigger then
    .trigger
  else if topic = topicReset then
    .reset
  else if topic = topicStatus then
    match parseStatusRequest payload with
    | .ok uuid =>
      if uuidMax < uuid.length then .unknown
      else .status (overwrite (Vector.replicate uuidMax 0) uuid) uuid.length
    | .error _ => .unknown
  else
    .unknown

/-- The answer to a status request, or `none` if the copied bytes are not a text.  As long as
no state is known the door counts as closed. -/
def statusReply (uuid : Vector UInt8 uuidMax) (uuidLen : Nat) (current : Option DoorState)
    (version : UInt32) : Option (Encoded payloadMax Text) :=
  (fromUtf8 (uuid.toList.take uuidLen)).map fun uuid =>
    formatStatusResponse uuid (current.any isOpen) version (Vector.replicate payloadMax 0)

/-! ## The document that is sent -/

/-- The document of a status response. -/
def responseJson (uuid : Text) (isOpen : Bool) (version : UInt32) : Json :=
  .object
    [(text "uuid", .string uuid),
     (text "result",
      .object
        [(text "open", .literal (text (if isOpen then "true" else "false"))),
         (text "version", .number (numeral version.toNat))])]

section

open Json

variable {uuid : Text}

theorem stringBody_word {s : String}
    (h : (text s).all (fun b => decide (32 ≤ b ∧ b ≠ 34 ∧ b ≠ 92)) = true) :
    StringBody (text s) :=
  ⟨characters_plain fun b hb => of_decide_eq_true (List.all_eq_true.mp h b hb),
    validUtf8_text s⟩

theorem statusResponse_eq (uuid : Text) (isOpen : Bool) (version : UInt32) :
    statusResponse uuid isOpen version =
      123 :: ((quoted (text "uuid") ++ 58 :: quoted uuid) ++ 44 ::
        (quoted (text "result") ++ 58 ::
          (123 :: ((quoted (text "open") ++ 58 :: text (if isOpen then "true" else "false")) ++
            44 :: (quoted (text "version") ++ 58 :: numeral version.toNat) ++ [125]))) ++
          [125]) := by
  have hopening : text "\x7b\"uuid\":\"" = 123 :: (quoted (text "uuid") ++ [58, 34]) := by decide
  have hresult : text "\",\"result\":\x7b\"open\":" =
      34 :: 44 :: (quoted (text "result") ++ 58 :: 123 :: (quoted (text "open") ++ [58])) := by
    decide
  have hversion : text ",\"version\":" = 44 :: (quoted (text "version") ++ [58]) := by decide
  have hclosing : text "\x7d\x7d" = [125, 125] := by decide
  rw [statusResponse, hopening, hresult, hversion, hclosing]
  simp [quoted]

theorem literal_bool (b : Bool) : text (if b then "true" else "false") ∈ literals := by
  cases b <;> simp [literals]

theorem statusResponse_derives (huuid : StringBody uuid) (isOpen : Bool) (version : UInt32) :
    Derives (.item (responseJson uuid isOpen version)) (statusResponse uuid isOpen version) := by
  have hopen := member_of_item (stringBody_word (s := "open") (by decide))
    (item_of_value (.literal (literal_bool isOpen)))
  have hversion := member_of_item (stringBody_word (s := "version") (by decide))
    (item_of_value (.number (numberText_numeral version.toNat)))
  have hresult := member_of_item (stringBody_word (s := "result") (by decide))
    (item_of_value (.object (.nextMember hopen (.lastMember hversion))))
  have hid := member_of_item (stringBody_word (s := "uuid") (by decide))
    (item_of_value (.string huuid))
  rw [statusResponse_eq]
  exact item_of_value (.object (.nextMember hid (.lastMember hresult)))

theorem responseJson_strict (uuid : Text) (isOpen : Bool) (version : UInt32) :
    Strict (responseJson uuid isOpen version) := by
  refine .object fun m hm => ?_
  simp only [List.mem_cons, List.not_mem_nil, or_false] at hm
  rcases hm with rfl | rfl
  · exact .string
  · refine .object fun m hm => ?_
    simp only [List.mem_cons, List.not_mem_nil, or_false] at hm
    rcases hm with rfl | rfl
    · exact .literal
    · exact .number (strictNumber_numeral _)

/-! ## From the request to the reply -/

/-- What the codec accepts is the body of a JSON string. -/
theorem stringBody_of_parse {p : List UInt8} (h : parseStatusRequest p = .ok uuid) :
    StringBody uuid ∧ uuid ≠ [] := by
  obtain ⟨ms, hobject, hstatus⟩ :=
    (parseStatusRequest_iff (by simp) (by simp) (by simp)).mp h
  obtain ⟨hfirst, hne⟩ := statusFor_ok.mp hstatus
  obtain ⟨m, hm, hvalue⟩ := Option.map_eq_some_iff.mp hfirst
  obtain ⟨t, ht⟩ := object_members hobject m (List.mem_of_find?_eq_some hm)
  rw [hvalue] at ht
  exact ⟨string_body ht, hne⟩

theorem parseStatusRequest_response (huuid : StringBody uuid) (hne : uuid ≠ []) (isOpen : Bool)
    (version : UInt32) :
    parseStatusRequest (statusResponse uuid isOpen version) = .ok uuid := by
  rw [parseStatusRequest_object (statusResponse_derives huuid isOpen version)]
  exact statusFor_ok.mpr ⟨rfl, hne⟩

theorem classify_parsed {p : List UInt8} (h : parseStatusRequest p = .ok uuid)
    (hlength : uuid.length ≤ uuidMax) :
    classify topicStatus p =
      .status (overwrite (Vector.replicate uuidMax 0) uuid) uuid.length := by
  have htrigger : topicStatus ≠ topicTrigger := by decide
  have hreset : topicStatus ≠ topicReset := by decide
  simp only [classify, if_neg htrigger, if_neg hreset, if_pos, h,
    if_neg (Nat.not_lt.mpr hlength)]

theorem parsed_of_classify {p : List UInt8} {bytes : Vector UInt8 uuidMax} {len : Nat}
    (h : classify topicStatus p = .status bytes len) :
    ∃ u, parseStatusRequest p = .ok u ∧ u.length ≤ uuidMax := by
  have htrigger : topicStatus ≠ topicTrigger := by decide
  have hreset : topicStatus ≠ topicReset := by decide
  simp only [classify, if_neg htrigger, if_neg hreset, if_pos] at h
  cases hparse : parseStatusRequest p with
  | error e => simp [hparse] at h
  | ok u =>
    by_cases hlength : uuidMax < u.length
    · simp [hparse, hlength] at h
    · exact ⟨u, rfl, Nat.le_of_not_lt hlength⟩

theorem statusResponse_length (isOpen : Bool) (version : UInt32)
    (hlength : uuid.length ≤ uuidMax) :
    (statusResponse uuid isOpen version).length ≤ payloadMax := by
  have hnumeral : (numeral version.toNat).length ≤ 10 :=
    numeral_length (Nat.lt_trans version.toNat_lt (by decide))
  have hopen : (text (if isOpen then "true" else "false")).length ≤ 5 := by
    cases isOpen <;> decide
  have hopening : (text "\x7b\"uuid\":\"").length = 9 := by decide
  have hresult : (text "\",\"result\":\x7b\"open\":").length = 19 := by decide
  have hversion : (text ",\"version\":").length = 11 := by decide
  have hclosing : (text "\x7d\x7d").length = 2 := by decide
  unfold uuidMax at hlength
  unfold statusResponse payloadMax
  simp only [List.length_append, hopening, hresult, hversion, hclosing]
  omega

/-- The reply to an accepted request is always sent. -/
theorem statusReply_sent (huuid : StringBody uuid) (hlength : uuid.length ≤ uuidMax)
    (current : Option DoorState) (version : UInt32) :
    ∃ buf, statusReply (overwrite (Vector.replicate uuidMax 0) uuid) uuid.length current version =
      some (.ok (statusResponse uuid (current.any isOpen) version) buf) := by
  have hencodes := formatStatusResponse_encodes huuid.utf8 (current.any isOpen) version
    (Vector.replicate payloadMax 0)
  have hfits := statusResponse_length (current.any isOpen) version hlength
  rw [statusReply, take_overwrite hlength, fromUtf8_of_valid huuid.utf8, Option.map_some]
  cases hreply : formatStatusResponse uuid (current.any isOpen) version
      (Vector.replicate payloadMax 0) with
  | ok payload buf =>
    rw [hreply] at hencodes
    obtain ⟨-, rfl, -⟩ := hencodes
    exact ⟨buf, rfl⟩
  | truncated buf =>
    rw [hreply] at hencodes
    exact absurd hfits (Nat.not_le.mpr hencodes)
  | panic =>
    rw [hreply] at hencodes
    exact hencodes.elim

theorem topic_of_status {topic : String} {p : List UInt8} {bytes : Vector UInt8 uuidMax}
    {len : Nat} (h : classify topic p = .status bytes len) : topic = topicStatus := by
  unfold classify at h
  by_cases htrigger : topic = topicTrigger
  · simp [htrigger] at h
  by_cases hreset : topic = topicReset
  · rw [if_neg htrigger, if_pos hreset] at h
    cases h
  by_cases hstatus : topic = topicStatus
  · exact hstatus
  · rw [if_neg htrigger, if_neg hreset, if_neg hstatus] at h
    cases h

theorem statusReply_classified {topic : String} {p : List UInt8} {bytes : Vector UInt8 uuidMax}
    {len : Nat} (h : classify topic p = .status bytes len) (current : Option DoorState)
    (version : UInt32) :
    ∃ u buf, statusReply bytes len current version =
      some (.ok (statusResponse u (current.any isOpen) version) buf) := by
  rw [topic_of_status h] at h
  obtain ⟨u, hparse, hlength⟩ := parsed_of_classify h
  rw [classify_parsed hparse hlength, Action.status.injEq] at h
  obtain ⟨rfl, rfl⟩ := h
  exact ⟨u, statusReply_sent (stringBody_of_parse hparse).1 hlength current version⟩

/-- A status request is answered exactly when its `uuid` fits, and the answer is a strict JSON
text with one reading, which gives the `uuid` back. -/
theorem statusReply_round_trip (p : List UInt8) (current : Option DoorState) (version : UInt32) :
    ((∃ bytes len, classify topicStatus p = .status bytes len) ↔
      ∃ u, parseStatusRequest p = .ok u ∧ u.length ≤ uuidMax) ∧
    ∀ bytes len, classify topicStatus p = .status bytes len →
      ∃ u reply buf, parseStatusRequest p = .ok u ∧
        statusReply bytes len current version = some (.ok reply buf) ∧
        Derives (.item (responseJson u (current.any isOpen) version)) reply ∧
        Strict (responseJson u (current.any isOpen) version) ∧
        (∀ j, Derives (.item j) reply → j = responseJson u (current.any isOpen) version) ∧
        parseStatusRequest reply = .ok u := by
  refine ⟨⟨fun ⟨bytes, len, h⟩ => parsed_of_classify h,
    fun ⟨u, hparse, hlength⟩ => ⟨_, _, classify_parsed hparse hlength⟩⟩, ?_⟩
  intro bytes len h
  obtain ⟨u, hparse, hlength⟩ := parsed_of_classify h
  rw [classify_parsed hparse hlength, Action.status.injEq] at h
  obtain ⟨rfl, rfl⟩ := h
  obtain ⟨huuid, hne⟩ := stringBody_of_parse hparse
  obtain ⟨buf, hreply⟩ := statusReply_sent huuid hlength current version
  have hderives := statusResponse_derives huuid (current.any isOpen) version
  exact ⟨u, _, buf, hparse, hreply, hderives, responseJson_strict _ _ _,
    fun j hj => item_unambiguous hj hderives, parseStatusRequest_response huuid hne _ _⟩

end

end Telemetry
end GarageDoor
