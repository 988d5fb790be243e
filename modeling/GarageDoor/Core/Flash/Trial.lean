/-
An unconfirmed image survives at most one reset.
-/
import GarageDoor.Core.Flash.Lifecycle

namespace GarageDoor
namespace Flash

open Library

/-- What `on_reset` expects of the state it finds. -/
structure Expected (s : UpdateStateMachine) : Prop where
  staged : s.state = .swapPending → s.stagedVersion.isSome
  previous : s.state = .swapTesting → s.previousVersion.isSome

/-- A trial image runs over the image `original`. -/
def OnTrial (original : Nat) (s : UpdateStateMachine) : Prop :=
  s.state = .swapTesting ∧ s.previousVersion = some original

/-- The image `version` runs and no reset will change that. -/
def Settled (version : Nat) (s : UpdateStateMachine) : Prop :=
  (s.state = .boot ∨ s.state = .revert) ∧ s.activeVersion = version

def Attempt (op : Op) : Prop :=
  (∃ version sizeBytes, op = .stageFirmware version sizeBytes) ∨ op = .markUpdated

def Unmarking (op : Op) : Prop := op ≠ .markUpdated ∧ op ≠ .markDfu

section

variable {s s' : UpdateStateMachine} {op : Op} {outcome : Outcome} {v original version : Nat}

theorem Performs.expected (h : Performs s op outcome s') (hs : Expected s) : Expected s' := by
  cases h with
  | refused message hop => exact hs
  | staged hfit => exact ⟨fun _ => rfl, hs.previous⟩
  | marked hstaged hstate => exact ⟨fun _ => by simp [hstaged], by simp⟩
  | confirmed hstate => exact ⟨by simp, by simp⟩
  | detached => exact ⟨by simp, by simp⟩
  | swapped hstate hstaged => exact ⟨by simp, fun _ => rfl⟩
  | rolledBack hstate hprevious => exact ⟨by simp, by simp⟩
  | bootedActive hstate => exact hs
  | enteredUsb hstate => exact hs

theorem Performs.active_eq (h : Performs s op outcome s') (hop : op ≠ .onReset) :
    s'.activeVersion = s.activeVersion := by
  cases h with
  | swapped hstate hstaged => exact absurd rfl hop
  | rolledBack hstate hprevious => exact absurd rfl hop
  | _ => rfl

theorem Performs.eq_of_err {message : String} (h : Performs s op (.err message) s') : s' = s := by
  cases h
  rfl

theorem Performs.onTrial_of_swap (h : Performs s op (.booted .swappedAndBoot) s') :
    OnTrial s.activeVersion s' := by
  cases h
  exact ⟨rfl, rfl⟩

/-- Further attempts at an update leave a trial a trial. -/
theorem Performs.onTrial (h : Performs s op outcome s') (hop : Attempt op)
    (hs : OnTrial original s) : OnTrial original s' := by
  cases h with
  | refused message _ => exact hs
  | staged hfit => exact hs
  | marked hstaged hstate => exact absurd hs.1 hstate
  | _ => simp [Attempt] at hop

theorem Performs.settled (h : Performs s op outcome s') (hop : Unmarking op)
    (hs : Settled version s) : Settled version s' := by
  cases h with
  | refused message _ => exact hs
  | staged hfit => exact hs
  | marked hstaged hstate => exact absurd rfl hop.1
  | confirmed hstate => exact ⟨.inl rfl, hs.2⟩
  | detached => exact absurd rfl hop.2
  | swapped hstate hstaged => simp [Settled, hstate] at hs
  | rolledBack hstate hprevious => simp [Settled, hstate] at hs
  | bootedActive hstate => exact hs
  | enteredUsb hstate => simp [Settled, hstate] at hs

/-- No `expect` fails. -/
theorem Expected.perform (hs : Expected s) (op : Op) :
    ∃ outcome s', perform s op = some (outcome, s') := by
  cases op with
  | stageFirmware version sizeBytes => exact ⟨_, _, rfl⟩
  | markUpdated => exact ⟨_, _, rfl⟩
  | markBooted => exact ⟨_, _, rfl⟩
  | markDfu => exact ⟨_, _, rfl⟩
  | onReset =>
    simp only [Flash.perform, UpdateStateMachine.onReset]
    cases hstate : s.state with
    | swapPending =>
      obtain ⟨version, hstaged⟩ := Option.isSome_iff_exists.mp (hs.staged hstate)
      simp [hstaged]
    | swapTesting =>
      obtain ⟨version, hprevious⟩ := Option.isSome_iff_exists.mp (hs.previous hstate)
      simp [hprevious]
    | _ => exact ⟨_, _, rfl⟩

theorem OnTrial.reset (hs : OnTrial original s) :
    ∃ s', Flash.perform s .onReset = some (.booted .rolledBackAndBoot, s') ∧
      Settled original s' := by
  obtain ⟨hstate, hprevious⟩ := hs
  exact ⟨_, by simp only [Flash.perform, UpdateStateMachine.onReset, hstate, hprevious]; rfl,
    .inr rfl, rfl⟩

theorem Settled.reset (hs : Settled version s) :
    Flash.perform s .onReset = some (.booted .bootActive, s) := by
  rcases hs.1 with hstate | hstate <;>
    simp only [Flash.perform, UpdateStateMachine.onReset, hstate, Option.map_some]

theorem step_of_perform (v : Nat) (h : Flash.perform s op = some (outcome, s')) :
    (lifecycle v).step s op = some (s', [{ op, outcome, after := s' }]) := by
  simp only [lifecycle, h, Option.map_some]

theorem OnTrial.expected (hs : OnTrial original s) : Expected s :=
  ⟨by simp [hs.1], fun _ => by simp [hs.2]⟩

theorem Settled.expected (hs : Settled version s) : Expected s := by
  rcases hs.1 with hstate | hstate <;>
    exact ⟨by simp [hstate], by simp [hstate]⟩

/-- Operations of a kind that keeps `I` go through and keep it. -/
theorem lifecycle_keeps (v : Nat) {I : UpdateStateMachine → Prop} {P : Op → Prop}
    (hkeep : ∀ {s s' op outcome}, Performs s op outcome s' → P op → I s → I s') {ops : List Op}
    (hops : ∀ op ∈ ops, P op) (hs : I s) (hexpected : Expected s) :
    ∃ t calls, (lifecycle v).runFrom s ops = some (t, calls) ∧ Expected t ∧ I t := by
  refine Machine.runFrom_progress (I := fun s => Expected s ∧ I s) (P := P) ?_ hops ⟨hexpected, hs⟩
  intro s op hs hop
  obtain ⟨outcome, s', h⟩ := hs.1.perform op
  have hperforms := performs_of_perform h
  exact ⟨s', _, step_of_perform v h, hperforms.expected hs.1, hkeep hperforms hop hs.2⟩

end

/-! ## Every sequence of operations -/

/-- Unless it is confirmed or left for USB, the trial image `s` is rolled back to
`original` by the next reset, and `original` then stays until an update is marked. -/
def RollsBack (v original : Nat) (s : UpdateStateMachine) : Prop :=
  ∀ tries, (∀ op ∈ tries, Attempt op) →
    ∃ s₁ calls₁ s₂, (lifecycle v).runFrom s tries = some (s₁, calls₁) ∧
      perform s₁ .onReset = some (.booted .rolledBackAndBoot, s₂) ∧
      s₂.activeVersion = original ∧
      ∀ rest, (∀ op ∈ rest, Unmarking op) →
        ∃ s₃ calls₃ s₄, (lifecycle v).runFrom s₂ rest = some (s₃, calls₃) ∧
          perform s₃ .onReset = some (.booted .bootActive, s₄) ∧ s₄.activeVersion = original

theorem OnTrial.rollsBack {original : Nat} {s : UpdateStateMachine} (hs : OnTrial original s)
    (v : Nat) : RollsBack v original s := by
  intro tries htries
  obtain ⟨s₁, calls₁, hrun₁, -, hs₁⟩ :=
    lifecycle_keeps v Performs.onTrial htries hs hs.expected
  obtain ⟨s₂, hreset₂, hs₂⟩ := hs₁.reset
  refine ⟨s₁, calls₁, s₂, hrun₁, hreset₂, hs₂.2, fun rest hrest => ?_⟩
  obtain ⟨s₃, calls₃, hrun₃, -, hs₃⟩ :=
    lifecycle_keeps v Performs.settled hrest hs₂ hs₂.expected
  exact ⟨s₃, calls₃, s₃, hrun₃, hs₃.reset, hs₃.2⟩

/-- Every sequence of operations goes through without a panic, and from where it ends an
operation keeps to the lifecycle. -/
theorem lifecycle_rolls_back (v : Nat) (ops : List Op) :
    ∃ s calls, (lifecycle v).run ops = some (s, calls) ∧ Expected s ∧
      ∀ op, ∃ outcome s', perform s op = some (outcome, s') ∧
        (op ≠ .onReset → s'.activeVersion = s.activeVersion) ∧
        (∀ message, outcome = .err message → s' = s) ∧
        (outcome = .booted .swappedAndBoot → RollsBack v s.activeVersion s') := by
  have hnew : Expected (.new v) := (show Settled v (.new v) from ⟨.inl rfl, rfl⟩).expected
  obtain ⟨s, calls, hrun, hs, -⟩ := lifecycle_keeps v (I := fun _ => True) (P := fun _ => True)
    (fun _ _ _ => trivial) (show ∀ op ∈ ops, True from fun _ _ => trivial) trivial hnew
  refine ⟨s, calls, hrun, hs, fun op => ?_⟩
  obtain ⟨outcome, s', h⟩ := hs.perform op
  have hperforms := performs_of_perform h
  refine ⟨outcome, s', h, hperforms.active_eq, ?_, ?_⟩
  · intro message herr
    rw [herr] at hperforms
    exact hperforms.eq_of_err
  · intro hswap
    rw [hswap] at hperforms
    exact hperforms.onTrial_of_swap.rollsBack v

end Flash
end GarageDoor
