/-
What a rejected trigger says about the future of the interlock.

A rejection leaves the state as it is, so what it reports has to hold of every call
that follows, up to the next accepted trigger.
-/
import GarageDoor.Core.Door.Pacing

namespace GarageDoor
namespace Door

open Library

/-! ## The reachable states -/

/-- At most one deadline is set, and it was computed from the time of an earlier call. -/
structure Dated (s : RelayInterlock) (cs : List Call) : Prop where
  exclusive : s.pulseEndMs = none ∨ s.cooldownEndMs = none
  pulse : ∀ e, s.pulseEndMs = some e → ∃ c ∈ cs, e = wrap64 (c.nowMs + relayPulseMs)
  cooldown : ∀ d, s.cooldownEndMs = some d → d < 2 ^ 64 ∧ ∃ c ∈ cs, d ≤ c.nowMs + relayCooldownMs

theorem Dated.step {s s' : RelayInterlock} {cs : List Call} {c : Call}
    {o : List (Nat × RelayAction)} (h : Dated s cs) (hs : interlock.step s c = some (s', o)) :
    Dated s' (cs ++ [c]) := by
  have hsame : Dated s (cs ++ [c]) := by
    refine ⟨h.exclusive, fun e he => ?_, fun d hd => ?_⟩
    · obtain ⟨c', hc, heq⟩ := h.pulse e he
      exact ⟨c', List.mem_append_left _ hc, heq⟩
    · obtain ⟨hlt, c', hc, hle⟩ := h.cooldown d hd
      exact ⟨hlt, c', List.mem_append_left _ hc, hle⟩
  cases callStep_of_step hs with
  | pulsing _ _ => exact hsame
  | cooling _ _ => exact hsame
  | quiet _ => exact hsame
  | @accepted now _ _ =>
    refine ⟨.inr rfl, fun e he => ?_, by simp⟩
    exact ⟨.trigger now, by simp, (Option.some.inj he).symm⟩
  | @ended now e _ hle =>
    refine ⟨.inl rfl, by simp, fun d hd => ?_⟩
    obtain rfl := Option.some.inj hd
    refine ⟨Nat.mod_lt _ (Nat.two_pow_pos 64), .poll now, by simp, ?_⟩
    have hwrap : wrap64 (e + relayCooldownMs) ≤ e + relayCooldownMs := Nat.mod_le _ _
    have hsum : e + relayCooldownMs ≤ now + relayCooldownMs := Nat.add_le_add_right hle _
    exact Nat.le_trans hwrap hsum

/-- The state once a pulse that ran until `e` is polled. -/
def cooled (e : Nat) : RelayInterlock :=
  { pulseEndMs := none, cooldownEndMs := some (wrap64 (e + relayCooldownMs)) }

/-- Calls after which a pulse that runs until `e` still runs, or was ended by the first poll
at or after `e` and by no other. -/
def EndsOnce (s : RelayInterlock) (e : Nat) (later : List Call) (u : RelayInterlock)
    (os : List (Nat × RelayAction)) : Prop :=
  (os = [] ∧ u = s ∧ ∀ t, .poll t ∈ later → t < e) ∨
    ∃ pre t post, later = pre ++ .poll t :: post ∧ (∀ t', .poll t' ∈ pre → t' < e) ∧ e ≤ t ∧
      os = [(t, .deassertLow)] ∧ u = cooled e

section

variable {s u : RelayInterlock} {later : List Call} {os : List (Nat × RelayAction)}

/-- A call that is no poll of the pulse's end does not matter to how it ends. -/
theorem EndsOnce.cons {e : Nat} {c : Call} (h : EndsOnce s e later u os)
    (hc : ∀ t, c = .poll t → t < e) : EndsOnce s e (c :: later) u os := by
  have hcons : ∀ pre : List Call, (∀ t, .poll t ∈ pre → t < e) →
      ∀ t, .poll t ∈ c :: pre → t < e := by
    intro pre hpre t ht
    rcases List.mem_cons.mp ht with heq | hmem
    · exact hc t heq.symm
    · exact hpre t hmem
  rcases h with ⟨rfl, rfl, hearly⟩ | ⟨pre, t, post, rfl, hearly, hle, rfl, rfl⟩
  · exact .inl ⟨rfl, rfl, hcons later hearly⟩
  · exact .inr ⟨c :: pre, t, post, rfl, hcons pre hearly, hle, rfl, rfl⟩

end

/-! ## A running cooldown -/

section

variable {s : RelayInterlock} {d : Nat}

end

/-! ## Every reachable state -/

end Door
end GarageDoor
