/-
Half-open spans of addresses.

A list of spans in which every span ends before the next one starts has no two spans
with a common address.
-/
import Mathlib.Data.List.Pairwise
import Mathlib.Data.List.Sort
import Mathlib.Algebra.Group.Nat.Defs

namespace GarageDoor
namespace Library

structure Span where
  start : Nat
  length : Nat
  deriving DecidableEq, Repr

namespace Span

def stop (s : Span) : Nat := s.start + s.length

instance : Membership Nat Span where
  mem s a := s.start ≤ a ∧ a < s.stop

def Disjoint (s t : Span) : Prop := ∀ a ∈ s, a ∉ t

def Before (s t : Span) : Prop := s.stop ≤ t.start

/-- Both ends are multiples of `n`. -/
structure Aligned (n : Nat) (s : Span) : Prop where
  start : n ∣ s.start
  stop : n ∣ s.stop

variable {s t u : Span} {a b n : Nat}

theorem start_le_stop (s : Span) : s.start ≤ s.stop := Nat.le_add_right _ _

theorem Before.trans (hst : s.Before t) (htu : t.Before u) : s.Before u :=
  calc s.stop ≤ t.start := hst
    _ ≤ t.stop := t.start_le_stop
    _ ≤ u.start := htu

theorem Before.disjoint (h : s.Before t) : s.Disjoint t := by
  intro a hs ht
  have hlt : a < t.start := lt_of_lt_of_le hs.2 h
  exact absurd ht.1 (by omega)

/-- Of two spans that are apart and not empty, the one that starts first ends first. -/
theorem Disjoint.before (h : s.Disjoint t) (hstart : s.start ≤ t.start) (ht : 0 < t.length) :
    s.Before t := by
  refine Nat.le_of_not_lt fun hlt => h t.start ⟨hstart, hlt⟩ ⟨Nat.le_refl _, ?_⟩
  exact Nat.lt_add_of_pos_right ht

theorem Disjoint.symm (h : s.Disjoint t) : t.Disjoint s := fun a ht hs => h a hs ht

/-- An aligned span has every address of the blocks it has an address of. -/
theorem Aligned.mem_of_div_eq (hs : s.Aligned n) (ha : a ∈ s) (h : b / n = a / n) : b ∈ s := by
  obtain ⟨k, hk⟩ := hs.start
  obtain ⟨l, hl⟩ := hs.stop
  have hn : 0 < n := by
    rcases Nat.eq_zero_or_pos n with rfl | hn
    · have hstop : a < 0 * l := hl ▸ ha.2
      omega
    · exact hn
  have hka : n * k ≤ a := hk ▸ ha.1
  have hal : a < n * l := hl ▸ ha.2
  have hlow : k ≤ a / n := (Nat.le_div_iff_mul_le hn).mpr (by rw [Nat.mul_comm]; exact hka)
  have hhigh : a / n < l := (Nat.div_lt_iff_lt_mul hn).mpr (by rw [Nat.mul_comm]; exact hal)
  rw [← h] at hlow hhigh
  constructor
  · rw [hk, Nat.mul_comm]
    exact (Nat.le_div_iff_mul_le hn).mp hlow
  · rw [hl, Nat.mul_comm]
    exact (Nat.div_lt_iff_lt_mul hn).mp hhigh

/-- A span beside an aligned one has no address in the blocks of the latter. -/
theorem Aligned.not_mem_of_div_eq (hs : s.Aligned n) (hst : s.Disjoint t) (ha : a ∈ s)
    (h : b / n = a / n) : b ∉ t :=
  hst b (hs.mem_of_div_eq ha h)

/-! ## Neighbours -/

section

variable {α : Type} {R : α → α → Prop} {l : List α}

theorem isChain_of_windows (h : ∀ p ∈ l.zip l.tail, R p.1 p.2) : l.IsChain R := by
  induction l with
  | nil => exact .nil
  | cons a l ih =>
    cases l with
    | nil => exact .singleton a
    | cons b l =>
      refine .cons_cons (h (a, b) List.mem_cons_self) (ih fun p hp => ?_)
      exact h p (List.mem_cons_of_mem (a, b) hp)

/-- Things laid out one after the other, each checked against the next only, are apart
from one another, in whatever order they are listed. -/
theorem disjoint_of_windows (span : α → Span) {l' : List α} (hperm : l.Perm l')
    (h : ∀ p ∈ l.zip l.tail, (span p.1).Before (span p.2)) {a b : α} (ha : a ∈ l') (hb : b ∈ l')
    (hne : a ≠ b) : (span a).Disjoint (span b) := by
  have : Trans (fun a b => (span a).Before (span b)) (fun a b => (span a).Before (span b))
      fun a b => (span a).Before (span b) := ⟨Before.trans⟩
  have : Std.Symm fun a b => (span a).Disjoint (span b) := ⟨fun _ _ => Disjoint.symm⟩
  have hbefore : l.Pairwise fun a b => (span a).Before (span b) := (isChain_of_windows h).pairwise
  have hdisjoint : l'.Pairwise fun a b => (span a).Disjoint (span b) :=
    (hperm.pairwise_iff Disjoint.symm).mp (hbefore.imp Before.disjoint)
  exact hdisjoint.forall ha hb hne

end

end Span

end Library
end GarageDoor
