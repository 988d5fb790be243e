/-
The reset trigger of `deploy.sh`, and what `run` shows of it.

`run` puts stars in place of the argument after each `-u` or `-P` that it shows.  An option
value that reads `-u` or `-P` is taken for an option.
-/
import GarageDoor.Library.Ascii

namespace GarageDoor
namespace Deploy

open Library Ascii

/-- The environment of the trigger; a text that is empty counts as not set. -/
structure Trigger where
  broker : Text
  topic : Text
  payload : Text
  port : Text
  user : Text
  password : Text

def defaultTopic : Text := text "garagedoor/reset"
def defaultPayload : Text := text "reset"

/-- `${value:-default}`. -/
def orDefault (value default : Text) : Text := if value = [] then default else value

def optionUser : Text := text "-u"
def optionPassword : Text := text "-P"

/-- An option that is given if its value is set. -/
def optional (name value : Text) : List Text := if value ≠ [] then [name, value] else []

def mqttArgs (t : Trigger) : List Text :=
  [text "mosquitto_pub", text "-h", t.broker, text "-t", orDefault t.topic defaultTopic,
    text "-m", orDefault t.payload defaultPayload] ++
    (optional (text "-p") t.port ++ (optional optionUser t.user ++
      optional optionPassword t.password))

def isSecretOption (arg : Text) : Bool := arg == optionPassword || arg == optionUser

/-- The loop of `run`. -/
def redact : Bool → List Text → List Text
  | _, [] => []
  | true, _ :: args => text "****" :: redact false args
  | false, arg :: args => arg :: redact (isSecretOption arg) args

structure Ran where
  display : List Text
  executed : Option (List Text)

def run (dryRun : Bool) (args : List Text) : Ran :=
  { display := redact false args, executed := if dryRun then none else some args }

/-- The value before the credentials. -/
def lastValue (t : Trigger) : Text :=
  if t.port = [] then orDefault t.payload defaultPayload else t.port

/-- Triggers with other credentials, in the same places. -/
structure SameButCredentials (t t' : Trigger) : Prop where
  broker : t'.broker = t.broker
  topic : t'.topic = t.topic
  payload : t'.payload = t.payload
  port : t'.port = t.port
  user : t'.user = [] ↔ t.user = []
  password : t'.password = [] ↔ t.password = []

section

variable {t t' : Trigger} {args : List Text}

/-- `redact_next` after the arguments. -/
def redactNext : Bool → List Text → Bool
  | next, [] => next
  | true, _ :: args => redactNext false args
  | false, arg :: args => redactNext (isSecretOption arg) args

theorem redact_append (next : Bool) (front rest : List Text) :
    redact next (front ++ rest) = redact next front ++ redact (redactNext next front) rest := by
  induction front generalizing next with
  | nil => cases next <;> rfl
  | cons arg front ih =>
    cases next with
    | true => exact congrArg (_ :: ·) (ih false)
    | false => exact congrArg (_ :: ·) (ih _)

/-- After the value of an option only the value counts. -/
theorem redactNext_option {name : Text} (hname : isSecretOption name = false) (next : Bool)
    (value : Text) (args : List Text) :
    redactNext next (name :: value :: args) = redactNext (isSecretOption value) args := by
  cases next with
  | true => rfl
  | false => simp only [redactNext, hname]

/-- The arguments before the credentials. -/
def frontArgs (t : Trigger) : List Text :=
  [text "mosquitto_pub", text "-h", t.broker, text "-t", orDefault t.topic defaultTopic,
    text "-m", orDefault t.payload defaultPayload] ++ optional (text "-p") t.port

def secretArgs (t : Trigger) : List Text :=
  optional optionUser t.user ++ optional optionPassword t.password

theorem redactNext_front (t : Trigger) :
    redactNext false (frontArgs t) = isSecretOption (lastValue t) := by
  have hfirst : ∀ args, redactNext false (text "mosquitto_pub" :: args) =
      redactNext false args := fun _ => rfl
  have hh : isSecretOption (text "-h") = false := by decide
  have ht : isSecretOption (text "-t") = false := by decide
  have hm : isSecretOption (text "-m") = false := by decide
  have hp : isSecretOption (text "-p") = false := by decide
  unfold frontArgs optional lastValue
  simp only [List.cons_append, List.nil_append, hfirst, redactNext_option hh,
    redactNext_option ht, redactNext_option hm]
  by_cases hport : t.port = []
  · simp only [hport, ne_eq, not_true_eq_false, if_false, if_true, redactNext]
  · simp only [hport, ne_eq, not_false_eq_true, if_false, if_true, redactNext_option hp, redactNext]

theorem display_eq (dryRun : Bool) (t : Trigger) : (run dryRun (mqttArgs t)).display =
    redact false (frontArgs t) ++ redact (isSecretOption (lastValue t)) (secretArgs t) := by
  rw [← redactNext_front, ← redact_append]
  simp only [run, mqttArgs, frontArgs, secretArgs, List.append_assoc]

theorem SameButCredentials.front (h : SameButCredentials t t') : frontArgs t' = frontArgs t := by
  simp only [frontArgs, h.broker, h.topic, h.payload, h.port]

theorem SameButCredentials.hidden (h : SameButCredentials t t') :
    redact false (secretArgs t') = redact false (secretArgs t) := by
  unfold secretArgs optional
  by_cases huser : t.user = [] <;> by_cases hpassword : t.password = []
  all_goals
    simp [redact, isSecretOption, h.user, h.password, huser, hpassword]

/-- After a value that is taken for an option, one of the credentials is shown. -/
theorem exists_leak (h : t.user ≠ [] ∨ t.password ≠ []) : ∃ t', SameButCredentials t t' ∧
    redact true (secretArgs t') ≠ redact true (secretArgs t) := by
  by_cases huser : t.user = []
  · have hpassword := h.resolve_left (not_not.mpr huser)
    refine ⟨{ t with password := 65 :: t.password },
      ⟨rfl, rfl, rfl, rfl, Iff.rfl, by simp [hpassword]⟩, ?_⟩
    simp [secretArgs, optional, huser, hpassword, redact]
  · refine ⟨{ t with user := 65 :: t.user }, ⟨rfl, rfl, rfl, rfl, by simp [huser], Iff.rfl⟩, ?_⟩
    simp [secretArgs, optional, huser, redact]

/-- `run` shows nothing of the credentials exactly if the value before them is no `-u` or
`-P`. -/
theorem display_hides_iff (dryRun : Bool) (t : Trigger) :
    (∀ t', SameButCredentials t t' →
      (run dryRun (mqttArgs t')).display = (run dryRun (mqttArgs t)).display) ↔
    (t.user = [] ∧ t.password = []) ∨ isSecretOption (lastValue t) = false := by
  have hlast : ∀ t', SameButCredentials t t' → lastValue t' = lastValue t := by
    intro t' h
    simp only [lastValue, h.port, h.payload]
  constructor
  · intro hhides
    by_contra hnot
    obtain ⟨hset, hsecret⟩ := not_or.mp hnot
    obtain ⟨t', hsame, hleak⟩ := exists_leak (not_and_or.mp hset)
    have heq := hhides t' hsame
    rw [display_eq, display_eq, hlast t' hsame, hsame.front, Bool.not_eq_false _ |>.mp hsecret]
      at heq
    exact hleak (List.append_cancel_left heq)
  · rintro h t' hsame
    rw [display_eq, display_eq, hlast t' hsame, hsame.front]
    rcases h with ⟨huser, hpassword⟩ | hplain
    · simp only [secretArgs, huser, hpassword, hsame.user.mpr huser, hsame.password.mpr hpassword]
    · rw [hplain, hsame.hidden]

end

end Deploy
end GarageDoor
