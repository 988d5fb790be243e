/-
The relay interlock under an arbitrary caller.

A caller is a list of `trigger` and `poll` calls at non-decreasing times.  The
relay actions it gets back keep the pulse and the cooldown exactly when no
trigger arrives while a pulse that has run out still waits to be polled.
-/
import Mathlib.Data.List.Chain
import GarageDoor.Core.Door.Interlock

namespace GarageDoor
namespace Door

open Library

inductive Call where
  | trigger (nowMs : Nat)
  | poll (nowMs : Nat)
  deriving DecidableEq, Repr

def Call.nowMs : Call → Nat
  | .trigger nowMs => nowMs
  | .poll nowMs => nowMs

/-- An interlock driven by its caller, observed through the actions it returns. -/
def interlock : Machine RelayInterlock Call (Nat × RelayAction) where
  start := RelayInterlock.new
  step s
    | .trigger now =>
      match s.trigger now with
      | (.ok action, s') => some (s', [(now, action)])
      | (.error _, s') => some (s', [])
    | .poll now =>
      match s.poll now with
      | (some action, s') => some (s', [(now, action)])
      | (none, s') => some (s', [])

/-- The order and the bounds a caller's clock keeps. -/
structure Timely (cs : List Call) : Prop where
  mono : (cs.map Call.nowMs).Pairwise (· ≤ ·)
  range : ∀ c ∈ cs, RelayInterlock.InRange c.nowMs

/-- What the relay needs of the emitted actions. -/
structure Enforced (os : List (Nat × RelayAction)) : Prop where
  first : ∀ o ∈ os.head?, o.2 = .assertHigh
  alternate : os.IsChain fun x y => x.2 ≠ y.2
  pulse : os.IsChain fun x y => y.2 = .deassertLow → x.1 + relayPulseMs ≤ y.1
  cooldown : os.Pairwise fun x y =>
    x.2 = .assertHigh → y.2 = .assertHigh → x.1 + (relayPulseMs + relayCooldownMs) ≤ y.1

/-- No trigger meets a pulse that has run out and has not been polled. -/
def Polled (s : RelayInterlock) (c : Call) : Prop :=
  ∀ now, c = .trigger now → ∀ e, s.pulseEndMs = some e → now < e

/-! ## Every way through one call -/

inductive CallStep (s : RelayInterlock) :
    Call → RelayInterlock → List (Nat × RelayAction) → Prop where
  | pulsing {now e} (hpulse : s.pulseEndMs = some e) (hlt : now < e) :
      CallStep s (.trigger now) s []
  | cooling {now c} (hcool : s.cooldownEndMs = some c) (hlt : now < c) :
      CallStep s (.trigger now) s []
  | accepted {now} (hpulse : ∀ e, s.pulseEndMs = some e → e ≤ now)
      (hcool : ∀ c, s.cooldownEndMs = some c → c ≤ now) :
      CallStep s (.trigger now)
        { pulseEndMs := some (wrap64 (now + relayPulseMs)), cooldownEndMs := none }
        [(now, .assertHigh)]
  | quiet {now} (hpulse : ∀ e, s.pulseEndMs = some e → now < e) : CallStep s (.poll now) s []
  | ended {now e} (hpulse : s.pulseEndMs = some e) (hle : e ≤ now) :
      CallStep s (.poll now)
        { pulseEndMs := none, cooldownEndMs := some (wrap64 (e + relayCooldownMs)) }
        [(now, .deassertLow)]

theorem callStep_of_step {s s' : RelayInterlock} {c : Call} {o : List (Nat × RelayAction)}
    (h : interlock.step s c = some (s', o)) : CallStep s c s' o := by
  cases c with
  | trigger now =>
    rcases RelayInterlock.trigger_cases s now with
      ⟨e, he, hlt, ht⟩ | ⟨_, c, hc, hlt, ht⟩ | ⟨hpulse, hcool, ht⟩ <;>
      simp only [interlock, ht, Option.some.injEq, Prod.mk.injEq] at h <;>
      obtain ⟨rfl, rfl⟩ := h
    · exact .pulsing he hlt
    · exact .cooling hc hlt
    · exact .accepted hpulse hcool
  | poll now =>
    by_cases hp : ∃ e, s.pulseEndMs = some e ∧ e ≤ now
    · obtain ⟨e, he, hle⟩ := hp
      simp only [interlock, RelayInterlock.poll_some he hle, Option.some.injEq,
        Prod.mk.injEq] at h
      obtain ⟨rfl, rfl⟩ := h
      exact .ended he hle
    · have hquiet : ∀ e, s.pulseEndMs = some e → now < e := by
        intro e he
        exact Nat.lt_of_not_le fun hle => hp ⟨e, he, hle⟩
      simp only [interlock, RelayInterlock.poll_none hquiet, Option.some.injEq,
        Prod.mk.injEq] at h
      obtain ⟨rfl, rfl⟩ := h
      exact .quiet hquiet

/-! ## The emitted actions -/

theorem enforced_nil : Enforced [] := by
  constructor <;> simp

theorem Enforced.snoc {os : List (Nat × RelayAction)} {o : Nat × RelayAction}
    (h : Enforced os) (hfirst : os = [] → o.2 = .assertHigh)
    (halt : ∀ x ∈ os.getLast?, x.2 ≠ o.2)
    (hpulse : ∀ x ∈ os.getLast?, o.2 = .deassertLow → x.1 + relayPulseMs ≤ o.1)
    (hcool : ∀ x ∈ os, x.2 = .assertHigh → o.2 = .assertHigh →
      x.1 + (relayPulseMs + relayCooldownMs) ≤ o.1) : Enforced (os ++ [o]) := by
  constructor
  · intro x hx
    cases os with
    | nil =>
      simp only [List.nil_append, List.head?_cons, Option.mem_def, Option.some.injEq] at hx
      exact hx ▸ hfirst rfl
    | cons y ys => exact h.first x (by simpa using hx)
  · refine List.isChain_append.mpr ⟨h.alternate, List.isChain_singleton _, ?_⟩
    intro x hx y hy
    simp only [List.head?_cons, Option.mem_def, Option.some.injEq] at hy
    exact hy ▸ halt x hx
  · refine List.isChain_append.mpr ⟨h.pulse, List.isChain_singleton _, ?_⟩
    intro x hx y hy
    simp only [List.head?_cons, Option.mem_def, Option.some.injEq] at hy
    exact hy ▸ hpulse x hx
  · refine List.pairwise_append.mpr ⟨h.cooldown, List.pairwise_singleton _ _, ?_⟩
    intro x hx y hy
    rw [List.mem_singleton] at hy
    exact hy ▸ hcool x hx

/-- An accepted trigger right after another one breaks the alternation. -/
theorem not_enforced_of_double {os post : List (Nat × RelayAction)} {o o' : Nat × RelayAction}
    (hlast : os.getLast? = some o) (ho : o.2 = .assertHigh) (ho' : o'.2 = .assertHigh) :
    ¬ Enforced (os ++ ([o'] ++ post)) := by
  intro h
  have := (List.isChain_append.mp h.alternate).2.2 o hlast o' (by simp)
  exact this (ho.trans ho'.symm)

/-! ## The state behind the actions -/

/-- An armed pulse is the last action emitted, and no cooldown runs beside it. -/
def Armed (s : RelayInterlock) (os : List (Nat × RelayAction)) : Prop :=
  ∀ e, s.pulseEndMs = some e →
    s.cooldownEndMs = none ∧ ∃ o, os.getLast? = some o ∧ o.2 = .assertHigh

theorem armed_step {s s' : RelayInterlock} {os o : List (Nat × RelayAction)} {c : Call}
    (h : Armed s os) (hs : interlock.step s c = some (s', o)) : Armed s' (os ++ o) := by
  cases callStep_of_step hs with
  | pulsing _ _ => simpa using h
  | cooling _ _ => simpa using h
  | quiet _ => simpa using h
  | @accepted now _ _ =>
    intro e _
    exact ⟨rfl, (now, .assertHigh), by simp, rfl⟩
  | ended _ _ =>
    intro e he
    cases he

/-- With every pulse polled before the next trigger, the interlock state is read
off the last actions. -/
structure Tracks (s : RelayInterlock) (cs : List Call) (os : List (Nat × RelayAction)) :
    Prop where
  enforced : Enforced os
  times : ∀ o ∈ os, ∃ c ∈ cs, c.nowMs = o.1
  phase : (os = [] ∧ s = RelayInterlock.new) ∨
    (∃ a, os.getLast? = some (a, .assertHigh) ∧
      s = { pulseEndMs := some (a + relayPulseMs), cooldownEndMs := none }) ∨
    (∃ a b, os.getLast? = some (b, .deassertLow) ∧
      (∀ x ∈ os, x.2 = .assertHigh → x.1 ≤ a) ∧
      s = { pulseEndMs := none,
            cooldownEndMs := some (a + relayPulseMs + relayCooldownMs) })

theorem Timely.init {cs : List Call} {c : Call} (h : Timely (cs ++ [c])) : Timely cs := by
  constructor
  · have := h.mono
    rw [List.map_append, List.pairwise_append] at this
    exact this.1
  · exact fun c' hc => h.range c' (List.mem_append_left _ hc)

theorem Timely.inRange {cs : List Call} {c : Call} (h : Timely (cs ++ [c])) :
    RelayInterlock.InRange c.nowMs :=
  h.range c (by simp)

/-- The actions are unchanged by a call that returns none. -/
theorem Tracks.quiet {s : RelayInterlock} {cs : List Call} {os : List (Nat × RelayAction)}
    (h : Tracks s cs os) (c : Call) : Tracks s (cs ++ [c]) (os ++ []) := by
  rw [List.append_nil]
  refine ⟨h.enforced, fun o ho => ?_, h.phase⟩
  obtain ⟨c', hc, he⟩ := h.times o ho
  exact ⟨c', List.mem_append_left _ hc, he⟩

theorem Tracks.times_snoc {s : RelayInterlock} {cs : List Call}
    {os : List (Nat × RelayAction)} (h : Tracks s cs os) (c : Call) (action : RelayAction) :
    ∀ o ∈ os ++ [(c.nowMs, action)], ∃ c' ∈ cs ++ [c], c'.nowMs = o.1 := by
  intro o ho
  rcases List.mem_append.mp ho with ho | ho
  · obtain ⟨c', hc, he⟩ := h.times o ho
    exact ⟨c', List.mem_append_left _ hc, he⟩
  · rw [List.mem_singleton] at ho
    exact ⟨c, by simp, by rw [ho]⟩

theorem tracks_trigger {s s' : RelayInterlock} {cs : List Call}
    {os o : List (Nat × RelayAction)} {now : Nat} (h : Tracks s cs os)
    (ht : Timely (cs ++ [.trigger now])) (hp : Polled s (.trigger now))
    (hs : interlock.step s (.trigger now) = some (s', o)) :
    Tracks s' (cs ++ [.trigger now]) (os ++ o) := by
  have hrange : now < 2 ^ 64 - 1 - (600 + 2000) := ht.inRange
  cases callStep_of_step hs with
  | pulsing _ _ => exact h.quiet _
  | cooling _ _ => exact h.quiet _
  | accepted hover hdone =>
    -- The trigger is accepted, so the last action was no `assertHigh`.
    have hlow : ∀ x ∈ os.getLast?, x.2 ≠ .assertHigh ∧
        ∀ y ∈ os, y.2 = .assertHigh → y.1 + (relayPulseMs + relayCooldownMs) ≤ now := by
      rcases h.phase with ⟨rfl, rfl⟩ | ⟨a, hlast, rfl⟩ | ⟨a, b, hlast, hmax, rfl⟩
      · simp
      · have := hover _ rfl
        have := hp now rfl _ rfl
        omega
      · intro x hx
        rw [hlast, Option.mem_def, Option.some.injEq] at hx
        refine ⟨by simp [← hx], fun y hy hhigh => ?_⟩
        have := hdone _ rfl
        have := hmax y hy hhigh
        omega
    have hspace : ∀ y ∈ os, y.2 = .assertHigh →
        y.1 + (relayPulseMs + relayCooldownMs) ≤ now := by
      intro y hy
      cases hl : os.getLast? with
      | none =>
        rw [List.getLast?_eq_none_iff] at hl
        exact absurd hy (by simp [hl])
      | some x => exact (hlow x hl).2 y hy
    refine ⟨h.enforced.snoc (fun _ => rfl) (fun x hx => (hlow x hx).1) (by simp)
      (fun x hx hh _ => hspace x hx hh), h.times_snoc (.trigger now) _, .inr (.inl ⟨now, ?_, ?_⟩)⟩
    · simp
    · rw [RelayInterlock.wrap64_of_lt (by simp only [relayPulseMs]; omega)]

theorem tracks_poll {s s' : RelayInterlock} {cs : List Call}
    {os o : List (Nat × RelayAction)} {now : Nat} (h : Tracks s cs os)
    (ht : Timely (cs ++ [.poll now]))
    (hs : interlock.step s (.poll now) = some (s', o)) :
    Tracks s' (cs ++ [.poll now]) (os ++ o) := by
  have hrange : now < 2 ^ 64 - 1 - (600 + 2000) := ht.inRange
  cases callStep_of_step hs with
  | quiet _ => exact h.quiet _
  | @ended _ e he hle =>
    rcases h.phase with ⟨rfl, rfl⟩ | ⟨a, hlast, rfl⟩ | ⟨a, b, hlast, _, rfl⟩
    · simp [RelayInterlock.new] at he
    · simp only [Option.some.injEq] at he
      subst he
      obtain ⟨os', rfl⟩ := List.getLast?_eq_some_iff.mp hlast
      have hlast' : ∀ x ∈ (os' ++ [(a, RelayAction.assertHigh)]).getLast?,
          x = (a, .assertHigh) := by
        intro x hx
        simpa [eq_comm] using hx
      refine ⟨h.enforced.snoc (by simp) ?_ ?_ (by simp), h.times_snoc (.poll now) _,
        .inr (.inr ⟨a, now, by simp, ?_, ?_⟩)⟩
      · intro x hx
        rw [hlast' x hx]
        simp
      · intro x hx _
        rw [hlast' x hx]
        exact hle
      · intro x hx hhigh
        rcases List.mem_append.mp hx with hx | hx
        · rcases List.mem_append.mp hx with hx | hx
          · have := (List.pairwise_append.mp h.enforced.cooldown).2.2 x hx _
              (List.mem_singleton.mpr rfl) hhigh rfl
            simp only at this
            omega
          · exact Nat.le_of_eq (congrArg Prod.fst (List.mem_singleton.mp hx))
        · rw [List.mem_singleton.mp hx] at hhigh
          simp at hhigh
      · rw [RelayInterlock.wrap64_of_lt]
        simp only [relayPulseMs, relayCooldownMs] at hle ⊢
        omega
    · simp at he

theorem tracks_step {s s' : RelayInterlock} {cs : List Call}
    {os o : List (Nat × RelayAction)} {c : Call} (h : Timely cs → Tracks s cs os)
    (hp : Polled s c) (hs : interlock.step s c = some (s', o)) :
    Timely (cs ++ [c]) → Tracks s' (cs ++ [c]) (os ++ o) := by
  intro ht
  cases c with
  | trigger now => exact tracks_trigger (h ht.init) ht hp hs
  | poll now => exact tracks_poll (h ht.init) ht hs

/-! ## Any caller -/

/-- The actions an arbitrary caller obtains keep pulse and cooldown exactly when
every pulse that has run out is polled before the next trigger. -/
theorem enforced_iff_polled {cs : List Call} {s : RelayInterlock}
    {os : List (Nat × RelayAction)} (ht : Timely cs)
    (hrun : interlock.run cs = some (s, os)) :
    Enforced os ↔ interlock.Along Polled RelayInterlock.new cs := by
  constructor
  · intro henf
    by_contra hnot
    obtain ⟨pre, c, post, u', os₁', v, o, os₃, rfl, hpre', hne, hstep, rfl⟩ :=
      Machine.exists_step_of_not_along hrun hnot
    simp only [Polled, not_forall, Nat.not_lt] at hne
    obtain ⟨now, rfl, e, he, hle⟩ := hne
    have harmed : Armed u' os₁' :=
      Machine.run_history (m := interlock) (I := fun s _ os => Armed s os)
        (by intro e he; simp [interlock, RelayInterlock.new] at he)
        (fun hI hs => armed_step hI hs) hpre'
    obtain ⟨hcool, x, hlast, hx⟩ := harmed e he
    cases callStep_of_step hstep with
    | @pulsing _ e' he' hlt =>
      have : e = e' := Option.some.inj (he.symm.trans he')
      omega
    | cooling hc _ =>
      rw [hcool] at hc
      cases hc
    | accepted _ _ => exact not_enforced_of_double hlast hx rfl henf
  · intro halong
    exact (Machine.run_history_along (m := interlock) (P := Polled)
      (I := fun s cs os => Timely cs → Tracks s cs os)
      (fun _ => ⟨enforced_nil, by simp, .inl ⟨rfl, rfl⟩⟩)
      (fun hI hp hs => tracks_step hI hp hs) halong hrun ht).enforced

/-- A caller that polls each pulse at its end and waits out the cooldown. -/
theorem enforced_iff_polled_polite :
    Enforced [(0, .assertHigh), (600, .deassertLow), (2600, .assertHigh)] ↔
      interlock.Along Polled RelayInterlock.new [.trigger 0, .poll 600, .trigger 2600] :=
  enforced_iff_polled (s := { pulseEndMs := some 3200, cooldownEndMs := none })
    ⟨by decide, by decide⟩ rfl

/-- Two triggers one pulse apart, with no poll between them, are both accepted. -/
theorem not_enforced_without_poll :
    ¬ ∀ (cs : List Call) (s : RelayInterlock) (os : List (Nat × RelayAction)),
      Timely cs → interlock.run cs = some (s, os) → Enforced os := by
  intro h
  have henf : Enforced [(0, .assertHigh), (600, .assertHigh)] :=
    h [.trigger 0, .trigger 600] { pulseEndMs := some 1200, cooldownEndMs := none } _
      ⟨by decide, by decide⟩ rfl
  exact absurd henf.alternate (by decide)

end Door
end GarageDoor
