/-
Where a text splits: at its first pattern, at its last separator, at every separator.
-/
import GarageDoor.Library.Ascii
import Mathlib.Algebra.GroupWithZero.Nat

namespace GarageDoor
namespace Library
namespace Ascii

/-! ## At the first pattern -/

/-- `pattern` stands between `before` and `after`, and nowhere earlier. -/
structure SplitsFirst (pattern s before after : Text) : Prop where
  whole : s = before ++ (pattern ++ after)
  first : ∀ a b, s = a ++ (pattern ++ b) → before.length ≤ a.length

section

variable {pattern s before after : Text} {b : UInt8}

theorem SplitsFirst.cons (h : SplitsFirst pattern s before after)
    (hb : ∀ r, b :: s ≠ pattern ++ r) : SplitsFirst pattern (b :: s) (b :: before) after := by
  constructor
  · rw [h.whole]
    rfl
  · intro a r ha
    cases a with
    | nil => exact absurd ha (hb r)
    | cons c a =>
      obtain ⟨rfl, hs⟩ := List.cons_eq_cons.mp ha
      exact Nat.succ_le_succ (h.first a r hs)

theorem SplitsFirst.tail (h : SplitsFirst pattern (b :: s) before after)
    (hb : ∀ r, b :: s ≠ pattern ++ r) :
    ∃ before', before = b :: before' ∧ SplitsFirst pattern s before' after := by
  cases before with
  | nil => exact absurd h.whole (hb after)
  | cons c before' =>
    obtain ⟨rfl, hs⟩ := List.cons_eq_cons.mp h.whole
    refine ⟨before', rfl, hs, fun a r ha => ?_⟩
    exact Nat.le_of_succ_le_succ (h.first (b :: a) r (by rw [ha]; rfl))

/-- `splitOnce` finds the first split there is. -/
theorem splitOnce_eq_some (hne : pattern ≠ []) :
    splitOnce pattern s = some (before, after) ↔ SplitsFirst pattern s before after := by
  induction s generalizing before with
  | nil =>
    constructor
    · intro h
      cases h
    · intro h
      have := h.whole
      simp [hne] at this
  | cons b s ih =>
    rw [splitOnce]
    by_cases hpre : pattern.isPrefixOf (b :: s) = true
    · rw [if_pos hpre]
      obtain ⟨r, hr⟩ := List.isPrefixOf_iff_prefix.mp hpre
      rw [← hr, List.drop_left, Option.some.injEq, Prod.mk.injEq]
      constructor
      · intro ⟨hbefore, hafter⟩
        subst hbefore hafter
        exact ⟨rfl, fun _ _ _ => Nat.zero_le _⟩
      · intro h
        obtain rfl : [] = before :=
          (List.length_eq_zero_iff.mp (Nat.le_zero.mp (h.first [] r rfl))).symm
        exact ⟨rfl, List.append_cancel_left h.whole⟩
    · rw [if_neg hpre]
      have hb : ∀ r, b :: s ≠ pattern ++ r := by
        intro r hr
        exact hpre (List.isPrefixOf_iff_prefix.mpr ⟨r, hr.symm⟩)
      rw [Option.map_eq_some_iff]
      constructor
      · intro ⟨⟨before', after'⟩, hsplit, heq⟩
        cases heq
        exact (ih.mp hsplit).cons hb
      · intro h
        obtain ⟨before', rfl, hs⟩ := h.tail hb
        exact ⟨(before', after), ih.mpr hs, rfl⟩

/-- A split whose front has no byte that begins the pattern is the first one. -/
theorem splitsFirst_of_not_mem {c : UInt8} {tail : Text} (h : c ∉ before) :
    SplitsFirst (c :: tail) (before ++ (c :: tail ++ after)) before after := by
  refine ⟨rfl, fun a r ha => Nat.le_of_not_lt fun hlt => ?_⟩
  have hat : before[a.length]? = some c := by
    rw [← List.getElem?_append_left hlt, ha, List.getElem?_append_right (Nat.le_refl _),
      Nat.sub_self]
    rfl
  exact h (List.mem_of_getElem? hat)

end

/-! ## At the last separator -/

section

variable {sep : UInt8} {s before after : Text}

theorem rsplitOnce_eq_none : rsplitOnce sep s = none ↔ sep ∉ s := by
  induction s with
  | nil => simp [rsplitOnce]
  | cons b s ih =>
    rw [rsplitOnce, List.mem_cons, not_or, ← ih]
    cases hs : rsplitOnce sep s with
    | some split => simp
    | none =>
      by_cases hb : b = sep
      · simp [hb]
      · simp [hb, Ne.symm hb]

theorem rsplitOnce_append (h : sep ∉ after) :
    rsplitOnce sep (before ++ sep :: after) = some (before, after) := by
  induction before with
  | nil => rw [List.nil_append, rsplitOnce, rsplitOnce_eq_none.mpr h, if_pos rfl]
  | cons b before ih => rw [List.cons_append, rsplitOnce, ih]

/-- `rsplitOnce` finds the last separator there is. -/
theorem rsplitOnce_eq_some :
    rsplitOnce sep s = some (before, after) ↔ s = before ++ sep :: after ∧ sep ∉ after := by
  constructor
  · intro h
    induction s generalizing before with
    | nil => cases h
    | cons b s ih =>
      rw [rsplitOnce] at h
      cases hs : rsplitOnce sep s with
      | some split =>
        rw [hs] at h
        cases h
        obtain ⟨rfl, hafter⟩ := ih hs
        exact ⟨rfl, hafter⟩
      | none =>
        rw [hs] at h
        by_cases hb : b = sep
        · rw [if_pos hb] at h
          cases h
          exact ⟨by rw [hb]; rfl, rsplitOnce_eq_none.mp hs⟩
        · rw [if_neg hb] at h
          cases h
  · intro ⟨hs, hafter⟩
    rw [hs]
    exact rsplitOnce_append hafter

/-! ## At the first separator -/

/-- What stands before the first separator, and the rest from it on. -/
theorem takeWhile_dropWhile_ne :
    s.takeWhile (· != sep) = before ∧ s.dropWhile (· != sep) = after ↔
      s = before ++ after ∧ sep ∉ before ∧ ∀ b ∈ after.head?, b = sep := by
  constructor
  · intro ⟨hbefore, hafter⟩
    subst hbefore hafter
    refine ⟨List.takeWhile_append_dropWhile.symm, ?_, ?_⟩
    · intro hmem
      simpa using List.mem_takeWhile_imp hmem
    · intro b hb
      have := List.head?_dropWhile_not (· != sep) s
      rw [Option.mem_def.mp hb] at this
      simpa using this
  · intro ⟨hs, hbefore, hafter⟩
    have hpass : ∀ b ∈ before, (b != sep) = true := by
      intro b hb
      exact bne_iff_ne.mpr fun h => hbefore (h ▸ hb)
    rw [hs, List.takeWhile_append_of_pos hpass, List.dropWhile_append_of_pos hpass]
    cases after with
    | nil => simp
    | cons b after =>
      obtain rfl : b = sep := hafter b rfl
      simp

theorem append_sep_inj {before' after' : Text} (h : sep ∉ before) (h' : sep ∉ before')
    (heq : before ++ sep :: after = before' ++ sep :: after') :
    before = before' ∧ after = after' := by
  have hhead : ∀ (t : Text), ∀ b ∈ (sep :: t).head?, b = sep := by
    intro t b hb
    exact (Option.some.inj hb).symm
  have hsplit := takeWhile_dropWhile_ne.mpr ⟨rfl, h, hhead after⟩
  have hsplit' := takeWhile_dropWhile_ne.mpr ⟨heq, h', hhead after'⟩
  exact ⟨hsplit.1.symm.trans hsplit'.1,
    List.tail_eq_of_cons_eq (hsplit.2.symm.trans hsplit'.2)⟩

/-! ## At every separator -/

/-- The pieces between separators; empty ones are dropped. -/
def pieces (sep : UInt8) (s : Text) : List Text := (s.splitOn sep).filter (!·.isEmpty)

/-- The pieces, each with a separator before it. -/
def joined (sep : UInt8) (xs : List Text) : Text := xs.flatMap (sep :: ·)

theorem intercalate_cons_joined (x : Text) (xs : List Text) :
    [sep].intercalate (x :: xs) = x ++ joined sep xs := by
  induction xs generalizing x with
  | nil => simp [joined]
  | cons y ys ih =>
    rw [List.intercalate_cons_cons, ih]
    simp [joined]

theorem pieces_joined {xs : List Text} (h : ∀ x ∈ xs, x ≠ [] ∧ sep ∉ x) :
    pieces sep (joined sep xs) = xs := by
  have hsplit : (joined sep xs).splitOn sep = [] :: xs := by
    rw [← List.nil_append (joined sep xs), ← intercalate_cons_joined]
    refine List.splitOn_intercalate sep ?_ (List.cons_ne_nil _ _)
    intro x hx
    rcases List.mem_cons.mp hx with rfl | hx
    · exact List.not_mem_nil
    · exact (h x hx).2
  rw [pieces, hsplit, List.filter_cons_of_neg (by simp), List.filter_eq_self]
  intro x hx
  simpa using (h x hx).1

theorem ne_nil_of_mem_pieces {x : Text} (h : x ∈ pieces sep s) : x ≠ [] := by
  simpa using (List.mem_filter.mp h).2

theorem head_joined (sep : UInt8) (xs : List Text) : ∀ b ∈ (joined sep xs).head?, b = sep := by
  cases xs with
  | nil => simp [joined]
  | cons x xs => simp [joined, eq_comm]

theorem length_joined (xs : List Text) :
    (joined sep xs).length = (xs.map fun x => 1 + x.length).sum := by
  rw [joined, List.length_flatMap]
  exact congrArg List.sum (List.map_congr_left fun x _ => Nat.add_comm x.length 1)

theorem mem_joined {xs : List Text} {b : UInt8} (h : b ∈ joined sep xs) :
    b = sep ∨ ∃ x ∈ xs, b ∈ x := by
  obtain ⟨x, hx, hb⟩ := List.mem_flatMap.mp h
  rcases List.mem_cons.mp hb with rfl | hb
  · exact .inl rfl
  · exact .inr ⟨x, hx, hb⟩

@[simp] theorem joined_append (xs ys : List Text) :
    joined sep (xs ++ ys) = joined sep xs ++ joined sep ys :=
  List.flatMap_append

@[simp] theorem joined_singleton (x : Text) : joined sep [x] = sep :: x := by
  simp [joined]

end

end Ascii
end Library
end GarageDoor
