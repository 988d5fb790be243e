/-
The lifecycle on two flash banks.

The state machine keeps versions in three fields, the device has two slots: a staged
image and an image set aside share the DFU slot.  The two agree as long as nothing is
staged over an image that is set aside.
-/
import GarageDoor.Core.Flash.Lifecycle

namespace GarageDoor
namespace Flash

open Library

/-- The images in the two slots. -/
structure Banks where
  active : Nat
  dfu : Nat
  deriving DecidableEq, Repr

def Banks.swap (b : Banks) : Banks := { active := b.dfu, dfu := b.active }

/-- What an operation of the state machine moves in flash. -/
def Banks.follow (b : Banks) (s : UpdateStateMachine) (op : Op) (outcome : Outcome) : Banks :=
  match op, outcome with
  | .stageFirmware version _, .ok => { b with dfu := version }
  | .onReset, _ => if s.state = .swapPending ∨ s.state = .swapTesting then b.swap else b
  | _, _ => b

/-- The state machine with the device it models; `dfu` is what the DFU slot happens to
hold at first. -/
def dualBank (v dfu : Nat) : Machine (UpdateStateMachine × Banks) Op Call where
  start := (.new v, { active := v, dfu })
  step := fun (s, b) op =>
    (perform s op).map fun (outcome, s') =>
      ((s', b.follow s op outcome), [{ op, outcome, after := s' }])

/-- The active version runs, the DFU slot is claimed at most once, and an image to go
back to is there. -/
structure Realised (s : UpdateStateMachine) (b : Banks) : Prop where
  active : s.activeVersion = b.active
  single : s.stagedVersion = none ∨ s.previousVersion = none
  fallback : ∀ version, s.previousVersion = some version → b.dfu = version

/-- Nothing is staged while the DFU slot holds the image to go back to. -/
def StagesFree : UpdateStateMachine × Banks → Op → Prop
  | (s, _), op => ∀ version sizeBytes, op = .stageFirmware version sizeBytes →
      sizeBytes ≤ activeBytes → s.previousVersion = none

/-! ## One operation -/

/-- What is staged is in the DFU slot as well. -/
structure Simulates (s : UpdateStateMachine) (b : Banks) : Prop extends Realised s b where
  staged : ∀ version, s.stagedVersion = some version → b.dfu = version

section

variable {s s' : UpdateStateMachine} {b : Banks} {op : Op} {outcome : Outcome} {v dfu : Nat}

theorem simulates_new (v dfu : Nat) : Simulates (.new v) { active := v, dfu } := by
  refine ⟨⟨rfl, .inl rfl, ?_⟩, ?_⟩ <;> simp [UpdateStateMachine.new]

theorem Simulates.step (hs : Simulates s b) (hfree : StagesFree (s, b) op)
    (h : Performs s op outcome s') : Simulates s' (b.follow s op outcome) := by
  cases h with
  | refused message hop =>
    have hb : b.follow s op (.err message) = b := by
      cases op with
      | onReset => exact absurd rfl hop
      | _ => rfl
    rw [hb]
    exact hs
  | @staged version sizeBytes hfit =>
    have hnone : s.previousVersion = none := hfree version sizeBytes rfl hfit
    refine ⟨⟨hs.active, .inr hnone, ?_⟩, ?_⟩
    · simp [hnone]
    · simp [Banks.follow]
  | marked hstaged hstate => exact ⟨⟨hs.active, hs.single, hs.fallback⟩, hs.staged⟩
  | confirmed hstate => exact ⟨⟨hs.active, .inl rfl, by simp⟩, by simp⟩
  | detached => exact ⟨⟨hs.active, hs.single, hs.fallback⟩, hs.staged⟩
  | @swapped version hstate hstaged =>
    have hb : b.follow s .onReset (.booted .swappedAndBoot) = b.swap := if_pos (.inl hstate)
    rw [hb]
    refine ⟨⟨(hs.staged version hstaged).symm, .inl rfl, ?_⟩, by simp⟩
    intro version' hv
    cases hv
    exact hs.active.symm
  | @rolledBack version hstate hprevious =>
    have hb : b.follow s .onReset (.booted .rolledBackAndBoot) = b.swap := if_pos (.inr hstate)
    rw [hb]
    refine ⟨⟨(hs.fallback version hprevious).symm, .inr rfl, by simp⟩, ?_⟩
    intro version' hv
    cases hv
    exact hs.active.symm
  | bootedActive hstate =>
    have hb : b.follow s .onReset (.booted .bootActive) = b :=
      if_neg (by rcases hstate with hstate | hstate <;> simp [hstate])
    rw [hb]
    exact hs
  | enteredUsb hstate =>
    have hb : b.follow s .onReset (.booted .enterUsbBoot) = b := if_neg (by simp [hstate])
    rw [hb]
    exact hs

theorem performs_of_dualBank {t : UpdateStateMachine × Banks} {calls : List Call}
    (h : (dualBank v dfu).step (s, b) op = some (t, calls)) :
    ∃ outcome, Performs s op outcome t.1 ∧ t.2 = b.follow s op outcome := by
  obtain ⟨⟨outcome, s'⟩, hperform, heq⟩ := Option.map_eq_some_iff.mp h
  cases heq
  exact ⟨outcome, performs_of_perform hperform, rfl⟩

/-- A version staged beside an image set aside claims the slot a second time. -/
theorem not_realised_of_stage (v dfu : Nat) (h : ¬ StagesFree (s, b) op) :
    ∃ t calls, (dualBank v dfu).step (s, b) op = some (t, calls) ∧ ¬ Realised t.1 t.2 := by
  simp only [StagesFree] at h
  push Not at h
  obtain ⟨version, sizeBytes, rfl, hfit, hprevious⟩ := h
  have hperform : perform s (.stageFirmware version sizeBytes) =
      some (.ok, { s with stagedVersion := some version }) := by
    have hcan : canFitInActive sizeBytes = true := decide_eq_true hfit
    simp only [perform, UpdateStateMachine.stageFirmware, hcan, not_true_eq_false, if_false]
    rfl
  refine ⟨_, _, by simp only [dualBank, hperform, Option.map_some]; rfl, fun hr => ?_⟩
  rcases hr.single with hstaged | hnone
  · cases hstaged
  · exact hprevious hnone

end

/-! ## Every sequence of operations -/

/-- The device realises the state machine, at every point of a sequence of operations,
exactly when the sequence stages nothing over an image set aside. -/
theorem realised_iff_stagesFree (v dfu : Nat) (ops : List Op) :
    (∀ pre post s b calls, ops = pre ++ post →
      (dualBank v dfu).run pre = some ((s, b), calls) → Realised s b) ↔
      (dualBank v dfu).Along StagesFree (.new v, { active := v, dfu }) ops := by
  constructor
  · intro hrealised
    by_contra hnot
    obtain ⟨pre, op, post, ⟨s, b⟩, calls, rfl, hpre, hfree⟩ := Machine.exists_of_not_along hnot
    obtain ⟨⟨s', b'⟩, calls', hstep, hnone⟩ := not_realised_of_stage v dfu hfree
    refine hnone (hrealised (pre ++ [op]) post s' b' (calls ++ calls') (by simp) ?_)
    exact Machine.run_snoc hpre hstep
  · rintro halong pre post s b calls rfl hrun
    have hsimulates : Simulates s b :=
      Machine.run_history_along (m := dualBank v dfu)
        (I := fun t _ _ => Simulates t.1 t.2) (P := StagesFree) (simulates_new v dfu)
        (fun {t es os op t' o} ht hfree hstep => by
          obtain ⟨outcome, hperforms, hbanks⟩ := performs_of_dualBank hstep
          rw [hbanks]
          exact ht.step hfree hperforms) (Machine.along_of_append halong) hrun
    exact hsimulates.toRealised

/-- Version 3 is staged over version 1 while version 2 is on trial, and the rollback
boots 3. -/
theorem rollback_boots_staged :
    ¬ ∀ (v dfu : Nat) (ops : List Op) (s : UpdateStateMachine) (b : Banks) (calls : List Call),
      (dualBank v dfu).run ops = some ((s, b), calls) → s.activeVersion = b.active := by
  intro h
  have hactive := h 1 0
    [.stageFirmware 2 4096, .markUpdated, .onReset, .stageFirmware 3 4096, .onReset]
    { state := .revert, activeVersion := 1, stagedVersion := some 2, previousVersion := none }
    { active := 3, dfu := 2 } _ rfl
  exact absurd hactive (by decide)

end Flash
end GarageDoor
