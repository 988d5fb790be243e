/-
Loops with early exit.

A loop is its body with a variant the body decreases, so a run is total by
construction.  The body either goes round again with a new state or leaves the
loop with a result.
-/
import Mathlib.Data.Nat.Basic

namespace GarageDoor
namespace Library

structure Loop (σ α : Type) where
  body : σ → σ ⊕ α
  variant : σ → Nat
  decreases : ∀ {s s'}, body s = .inl s' → variant s' < variant s

namespace Loop

variable {σ τ α β : Type}

def run (l : Loop σ α) (s : σ) : α :=
  match _h : l.body s with
  | .inl s' => l.run s'
  | .inr a => a
termination_by l.variant s
decreasing_by exact l.decreases _h

variable {l : Loop σ α}

theorem run_next {s s' : σ} (h : l.body s = .inl s') : l.run s = l.run s' := by
  rw [run]
  split
  · next h' =>
    rw [h, Sum.inl.injEq] at h'
    rw [h']
  · next h' =>
    rw [h] at h'
    cases h'

theorem run_exit {s : σ} {a : α} (h : l.body s = .inr a) : l.run s = a := by
  rw [run]
  split
  · next h' =>
    rw [h] at h'
    cases h'
  · next h' =>
    rw [h, Sum.inr.injEq] at h'
    exact h'.symm

/-- The loop rule: a run that starts in the invariant leaves through an exit taken
in the invariant. -/
theorem run_rule {I : σ → Prop} {Q : α → Prop} {s : σ} (hs : I s)
    (hnext : ∀ {s s'}, I s → l.body s = .inl s' → I s')
    (hexit : ∀ {s a}, I s → l.body s = .inr a → Q a) : Q (l.run s) := by
  induction hn : l.variant s using Nat.strong_induction_on generalizing s with
  | _ n ih =>
    cases hb : l.body s with
    | inl s' =>
      rw [run_next hb]
      exact ih _ (hn ▸ l.decreases hb) (hnext hs hb) rfl
    | inr a =>
      rw [run_exit hb]
      exact hexit hs hb

/-- The loop rule with one obligation: an iteration in the invariant stays in it or
leaves with the result. -/
theorem run_step_rule {I : σ → Prop} {Q : α → Prop} {s : σ} (hs : I s)
    (hstep : ∀ {s}, I s →
      (∃ s', l.body s = .inl s' ∧ I s') ∨ (∃ a, l.body s = .inr a ∧ Q a)) : Q (l.run s) := by
  refine run_rule hs ?_ ?_
  · intro s s' hI hb
    rcases hstep hI with ⟨s'', hb', hI'⟩ | ⟨a, hb', -⟩ <;> rw [hb] at hb' <;> cases hb'
    exact hI'
  · intro s a hI hb
    rcases hstep hI with ⟨s', hb', -⟩ | ⟨a', hb', hQ⟩ <;> rw [hb] at hb' <;> cases hb'
    exact hQ

/-- Two loops in lock step: related states go round together or leave together. -/
theorem run_related {k : Loop τ β} {R : σ → τ → Prop} {Q : α → β → Prop} {s : σ} {t : τ}
    (hst : R s t)
    (hstep : ∀ {s t}, R s t →
      (∃ s' t', l.body s = .inl s' ∧ k.body t = .inl t' ∧ R s' t') ∨
      (∃ a b, l.body s = .inr a ∧ k.body t = .inr b ∧ Q a b)) : Q (l.run s) (k.run t) := by
  induction hn : l.variant s using Nat.strong_induction_on generalizing s t with
  | _ n ih =>
    rcases hstep hst with ⟨s', t', hs, ht, hR⟩ | ⟨a, b, hs, ht, hQ⟩
    · rw [run_next hs, run_next ht]
      exact ih _ (hn ▸ l.decreases hs) hR rfl
    · rw [run_exit hs, run_exit ht]
      exact hQ

end Loop

end Library
end GarageDoor
