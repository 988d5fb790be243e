/-
The image a rollback goes back to.

A trial image that is neither confirmed nor rolled back can still become the image set
aside by the next swap: leaving for USB hides the trial from the guard of
`mark_updated`.
-/
import GarageDoor.Core.Flash.Lifecycle
import GarageDoor.Library.Trace

namespace GarageDoor
namespace Flash

open Library

/-- The image a call confirms. -/
def Call.confirms (c : Call) : Option Nat :=
  if c.op = .markBooted ∧ c.outcome = .ok then some c.after.activeVersion else none

def confirmed (v : Nat) (calls : List Call) : List Nat := v :: calls.filterMap Call.confirms

/-- A swap sets aside, and a rollback restores, an image confirmed before. -/
def KeepsFallback (v : Nat) (before : List Call) (c : Call) : Prop :=
  (c.outcome = .booted .swappedAndBoot →
    ∃ version ∈ confirmed v before, c.after.previousVersion = some version) ∧
  (c.outcome = .booted .rolledBackAndBoot → c.after.activeVersion ∈ confirmed v before)

def FallbackConfirmed (v : Nat) : List Call → Prop := EachAfter (KeepsFallback v)

/-- No swap is made while the image of an earlier one is still set aside. -/
def SwapsOnce (s : UpdateStateMachine) (op : Op) : Prop :=
  op = .onReset → s.state = .swapPending → s.previousVersion = none

/-- The versions that the operations stage. -/
def stagings (ops : List Op) : List Nat :=
  ops.filterMap fun
    | .stageFirmware version _ => some version
    | _ => none

/-! ## Confirmed images -/

section

variable {s s' : UpdateStateMachine} {op : Op} {outcome : Outcome} {v : Nat} {calls : List Call}
  {ops : List Op}

theorem confirmed_snoc (v : Nat) (calls : List Call) (c : Call) :
    confirmed v (calls ++ [c]) = confirmed v calls ++ c.confirms.toList := by
  rw [confirmed, List.filterMap_append, confirmed, List.cons_append]
  cases hc : c.confirms <;> simp [hc]

theorem stagings_snoc (ops : List Op) (op : Op) :
    stagings (ops ++ [op]) = stagings ops ++ stagings [op] := List.filterMap_append

/-- What is set aside or runs confirmed, as long as every swap is made once. -/
structure Fallback (v : Nat) (s : UpdateStateMachine) (calls : List Call) : Prop where
  active : s.previousVersion = none → s.activeVersion ∈ confirmed v calls
  previous : ∀ version, s.previousVersion = some version → version ∈ confirmed v calls
  kept : FallbackConfirmed v calls

theorem fallback_new (v : Nat) : Fallback v (.new v) [] :=
  ⟨fun _ => List.mem_cons_self, by simp [UpdateStateMachine.new], eachAfter_nil _⟩

/-- A call that neither swaps nor rolls back has nothing to keep. -/
theorem FallbackConfirmed.snoc {c : Call} (h : FallbackConfirmed v calls)
    (hswap : c.outcome ≠ .booted .swappedAndBoot)
    (hroll : c.outcome ≠ .booted .rolledBackAndBoot) : FallbackConfirmed v (calls ++ [c]) :=
  eachAfter_snoc.mpr ⟨h, fun hs => absurd hs hswap, fun hr => absurd hr hroll⟩

theorem mem_confirmed_snoc {version : Nat} {c : Call} (h : version ∈ confirmed v calls) :
    version ∈ confirmed v (calls ++ [c]) := by
  rw [confirmed_snoc]
  exact List.mem_append_left _ h

theorem Fallback.step (hs : Fallback v s calls) (hswap : SwapsOnce s op)
    (h : Performs s op outcome s') :
    Fallback v s' (calls ++ [{ op, outcome, after := s' }]) := by
  have hactive := fun hp => mem_confirmed_snoc (c := { op, outcome, after := s' }) (hs.active hp)
  have hprevious := fun version hp =>
    mem_confirmed_snoc (c := { op, outcome, after := s' }) (hs.previous version hp)
  cases h with
  | refused message hop => exact ⟨hactive, hprevious, hs.kept.snoc (by simp) (by simp)⟩
  | staged hfit => exact ⟨hactive, hprevious, hs.kept.snoc (by simp) (by simp)⟩
  | marked hstaged hstate => exact ⟨hactive, hprevious, hs.kept.snoc (by simp) (by simp)⟩
  | confirmed hstate =>
    refine ⟨fun _ => ?_, by simp, hs.kept.snoc (by simp) (by simp)⟩
    rw [confirmed_snoc]
    simp [Call.confirms]
  | detached => exact ⟨hactive, hprevious, hs.kept.snoc (by simp) (by simp)⟩
  | @swapped version hstate hstaged =>
    have hnone := hswap rfl hstate
    refine ⟨by simp, fun version hp => ?_, eachAfter_snoc.mpr ⟨hs.kept, fun _ => ?_, by simp⟩⟩
    · cases hp
      exact hactive hnone
    · exact ⟨s.activeVersion, hs.active hnone, rfl⟩
  | @rolledBack version hstate hp =>
    refine ⟨fun _ => hprevious version hp, by simp,
      eachAfter_snoc.mpr ⟨hs.kept, by simp, fun _ => hs.previous version hp⟩⟩
  | bootedActive hstate => exact ⟨hactive, hprevious, hs.kept.snoc (by simp) (by simp)⟩
  | enteredUsb hstate => exact ⟨hactive, hprevious, hs.kept.snoc (by simp) (by simp)⟩

/-! ## Images told apart by their versions -/

/-- While no version is staged twice, what is staged or on trial was never confirmed. -/
structure Unconfirmed (s : UpdateStateMachine) (seen known : List Nat) : Prop where
  sub : known ⊆ seen
  active : s.activeVersion ∈ seen
  staged : ∀ version, s.stagedVersion = some version → version ∈ seen ∧ version ∉ known
  previous : ∀ version, s.previousVersion = some version →
    version ∈ seen ∧ s.activeVersion ∉ known

theorem unconfirmed_new (v : Nat) : Unconfirmed (.new v) [v] [v] := by
  constructor <;> simp [UpdateStateMachine.new]

theorem Unconfirmed.step {seen known : List Nat} (hs : Unconfirmed s seen known)
    (hfresh : ∀ version sizeBytes, op = .stageFirmware version sizeBytes → version ∉ seen)
    (h : Performs s op outcome s') :
    Unconfirmed s' (seen ++ stagings [op])
      (known ++ (Call.confirms { op, outcome, after := s' }).toList) := by
  have hmem : seen ⊆ seen ++ stagings [op] := List.subset_append_left _ _
  cases h with
  | refused message hop =>
    have hnone : Call.confirms { op, outcome := .err message, after := s } = none := by
      simp [Call.confirms]
    rw [hnone, Option.toList_none, List.append_nil]
    exact ⟨fun _ hv => hmem (hs.sub hv), hmem hs.active,
      fun version hv => ⟨hmem (hs.staged version hv).1, (hs.staged version hv).2⟩,
      fun version hv => ⟨hmem (hs.previous version hv).1, (hs.previous version hv).2⟩⟩
  | @staged version sizeBytes hfit =>
    have hnot := hfresh version sizeBytes rfl
    simp only [Call.confirms, reduceCtorEq, false_and, if_false, Option.toList_none,
      List.append_nil]
    refine ⟨fun _ hv => hmem (hs.sub hv), hmem hs.active, ?_,
      fun version hv => ⟨hmem (hs.previous version hv).1, (hs.previous version hv).2⟩⟩
    intro version' hv
    cases hv
    exact ⟨by simp [stagings], fun hc => hnot (hs.sub hc)⟩
  | confirmed hstate =>
    simp only [stagings, List.filterMap_cons, List.filterMap_nil, List.append_nil, Call.confirms,
      and_self, if_true, Option.toList_some]
    refine ⟨?_, hs.active, by simp, by simp⟩
    intro version hv
    rcases List.mem_append.mp hv with hv | hv
    · exact hs.sub hv
    · rw [List.mem_singleton.mp hv]
      exact hs.active
  | @swapped version hstate hstaged =>
    simp only [stagings, List.filterMap_cons, List.filterMap_nil, List.append_nil, Call.confirms,
      reduceCtorEq, false_and, if_false, Option.toList_none]
    refine ⟨hs.sub, (hs.staged version hstaged).1, by simp, fun version' hv => ?_⟩
    cases hv
    exact ⟨hs.active, (hs.staged version hstaged).2⟩
  | @rolledBack version hstate hprevious =>
    simp only [stagings, List.filterMap_cons, List.filterMap_nil, List.append_nil, Call.confirms,
      reduceCtorEq, false_and, if_false, Option.toList_none]
    refine ⟨hs.sub, (hs.previous version hprevious).1, fun version' hv => ?_, by simp⟩
    cases hv
    exact ⟨hs.active, (hs.previous version hprevious).2⟩
  | _ =>
    simp only [stagings, List.filterMap_cons, List.filterMap_nil, List.append_nil, Call.confirms,
      reduceCtorEq, false_and, if_false, Option.toList_none]
    exact ⟨hs.sub, hs.active, hs.staged, hs.previous⟩

/-- A swap over an image still set aside makes the trial image the fallback. -/
theorem not_keepsFallback_of_swap (hs : Unconfirmed s (v :: stagings ops) (confirmed v calls))
    (hswap : ¬ SwapsOnce s op) (h : Performs s op outcome s') :
    ¬ KeepsFallback v calls { op, outcome, after := s' } := by
  unfold SwapsOnce at hswap
  push Not at hswap
  obtain ⟨rfl, hstate, hprevious⟩ := hswap
  obtain ⟨version, hprevious⟩ := Option.ne_none_iff_exists'.mp hprevious
  cases h with
  | swapped _ hstaged =>
    rintro ⟨hkeeps, -⟩
    obtain ⟨version', hversion', hrecorded⟩ := hkeeps rfl
    cases hrecorded
    exact (hs.previous version hprevious).2 hversion'
  | rolledBack hstate' _ => simp [hstate] at hstate'
  | bootedActive hstate' => simp [hstate] at hstate'
  | enteredUsb hstate' => simp [hstate] at hstate'
  | refused message hop => exact absurd rfl hop

end

/-! ## Every sequence of operations -/

/-- With every swap made once, rollbacks go to confirmed images; and where the images are
told apart by their versions, only then. -/
theorem fallbackConfirmed_of_swapsOnce {v : Nat} {ops : List Op} {s : UpdateStateMachine}
    {calls : List Call} (hrun : (lifecycle v).run ops = some (s, calls)) :
    ((lifecycle v).Along SwapsOnce (.new v) ops → FallbackConfirmed v calls) ∧
    ((v :: stagings ops).Nodup → FallbackConfirmed v calls →
      (lifecycle v).Along SwapsOnce (.new v) ops) := by
  constructor
  · intro halong
    have hfallback : Fallback v s calls :=
      Machine.run_history_along (I := fun s _ calls => Fallback v s calls) (P := SwapsOnce)
        (fallback_new v) (fun {s es os op s' o} hs hswap hstep => by
          obtain ⟨outcome, rfl, hperforms⟩ := performs_of_step hstep
          exact hs.step hswap hperforms) halong hrun
    exact hfallback.kept
  · intro hnodup hkept
    by_contra hnot
    obtain ⟨pre, op, post, u, os, u', o, os₂, rfl, hpre, hswap, hstep, rfl⟩ :=
      Machine.exists_step_of_not_along hrun hnot
    obtain ⟨outcome, rfl, hperforms⟩ := performs_of_step hstep
    have hunconfirmed : (v :: stagings pre).Nodup →
        Unconfirmed u (v :: stagings pre) (confirmed v os) :=
      Machine.run_history
        (I := fun s ops calls => (v :: stagings ops).Nodup →
          Unconfirmed s (v :: stagings ops) (confirmed v calls))
        (fun _ => unconfirmed_new v) (fun {s es os op s' o} hs hstep hnodup => by
          obtain ⟨outcome, rfl, hperforms⟩ := performs_of_step hstep
          rw [stagings_snoc, ← List.cons_append] at hnodup ⊢
          rw [confirmed_snoc]
          obtain ⟨hbefore, -, hdisjoint⟩ := List.nodup_append.mp hnodup
          refine (hs hbefore).step ?_ hperforms
          rintro version sizeBytes rfl hseen
          exact hdisjoint _ hseen _ (by simp [stagings]) rfl) hpre
    have hbefore : (v :: stagings pre).Nodup := by
      rw [show pre ++ op :: post = pre ++ ([op] ++ post) from rfl, stagings,
        List.filterMap_append, ← List.cons_append] at hnodup
      exact (List.nodup_append.mp hnodup).1
    refine not_keepsFallback_of_swap (hunconfirmed hbefore) hswap hperforms ?_
    exact hkept os _ os₂ (by simp)

/-- The trial of 2 leaves for USB, 3 is staged and marked, and the next reset sets 2
aside. -/
theorem trial_becomes_fallback :
    ¬ ∀ (v : Nat) (ops : List Op) (s : UpdateStateMachine) (calls : List Call),
      (lifecycle v).run ops = some (s, calls) → FallbackConfirmed v calls := by
  intro h
  have hkept := h 1
    [.stageFirmware 2 4096, .markUpdated, .onReset, .markDfu, .stageFirmware 3 4096, .markUpdated,
      .onReset] ⟨.swapTesting, 3, none, some 2⟩
    ([⟨.stageFirmware 2 4096, .ok, ⟨.boot, 1, some 2, none⟩⟩,
      ⟨.markUpdated, .ok, ⟨.swapPending, 1, some 2, none⟩⟩,
      ⟨.onReset, .booted .swappedAndBoot, ⟨.swapTesting, 2, none, some 1⟩⟩,
      ⟨.markDfu, .ok, ⟨.dfuDetach, 2, none, some 1⟩⟩,
      ⟨.stageFirmware 3 4096, .ok, ⟨.dfuDetach, 2, some 3, some 1⟩⟩,
      ⟨.markUpdated, .ok, ⟨.swapPending, 2, some 3, some 1⟩⟩] ++
      [⟨.onReset, .booted .swappedAndBoot, ⟨.swapTesting, 3, none, some 2⟩⟩]) rfl
  obtain ⟨version, hversion, hrecorded⟩ := (eachAfter_snoc.mp hkept).2.1 rfl
  cases hrecorded
  exact absurd hversion (by decide)

/-- An update that confirms itself, and one that is rolled back to it. -/
def updates : List Op :=
  [.stageFirmware 2 4096, .markUpdated, .onReset, .markBooted, .stageFirmware 3 4096, .markUpdated,
    .onReset, .onReset]

theorem fallbackConfirmed_of_swapsOnce_update : ∃ s calls,
    (lifecycle 1).run updates = some (s, calls) ∧ s.activeVersion = 2 ∧
      FallbackConfirmed 1 calls ∧ (lifecycle 1).Along SwapsOnce (.new 1) updates := by
  have hrun : ∃ s calls, (lifecycle 1).run updates = some (s, calls) ∧ s.activeVersion = 2 :=
    ⟨_, _, rfl, rfl⟩
  obtain ⟨s, calls, hrun, hactive⟩ := hrun
  have halong : (lifecycle 1).Along SwapsOnce (.new 1) updates := by
    refine Machine.along_cons nofun rfl (Machine.along_cons nofun rfl ?_)
    refine Machine.along_cons (fun _ _ => rfl) rfl (Machine.along_cons nofun rfl ?_)
    refine Machine.along_cons nofun rfl (Machine.along_cons nofun rfl ?_)
    exact Machine.along_cons (fun _ _ => rfl) rfl (Machine.along_cons nofun rfl trivial)
  exact ⟨s, calls, hrun, hactive, (fallbackConfirmed_of_swapsOnce hrun).1 halong, halong⟩

end Flash
end GarageDoor
