/-
Slices of lists, read and assigned, and what is laid out in them: blocks of one size,
words with the least significant byte first, data placed at offsets.
-/
import GarageDoor.Library.Span
import Mathlib.Data.List.Basic

namespace GarageDoor
namespace Library

variable {α β : Type}

/-- `xs[a:b]`. -/
def slice (xs : List α) (a b : Nat) : List α := (xs.take b).drop a

/-- `xs[a:b] = ys`. -/
def setSlice (xs : List α) (a b : Nat) (ys : List α) : List α :=
  xs.take a ++ (ys ++ xs.drop (max a b))

section Slices

variable {xs ys zs : List α} {a b i : Nat}

theorem getElem?_slice : (slice xs a b)[i]? = if a + i < b then xs[a + i]? else none := by
  rw [slice, List.getElem?_drop, List.getElem?_take]

theorem length_slice (h : b ≤ xs.length) : (slice xs a b).length = b - a := by
  rw [slice, List.length_drop, List.length_take, Nat.min_eq_left h]

theorem slice_append (xs ys zs : List α) (ha : a = xs.length) (hb : b = a + ys.length) :
    slice (xs ++ (ys ++ zs)) a b = ys := by
  subst ha hb
  rw [slice, List.take_length_add_append, List.drop_left, List.take_left]

theorem slice_append_slice {c : Nat} (hab : a ≤ b) (hbc : b ≤ c) :
    slice xs a b ++ slice xs b c = slice xs a c := by
  have hc : c - a = (b - a) + (c - b) := by omega
  have hb : a + (b - a) = b := by omega
  rw [slice, slice, slice, List.drop_take, List.drop_take, List.drop_take, hc, List.take_add,
    List.drop_drop, hb]

theorem setSlice_append (xs old ys zs : List α) (ha : a = xs.length) (hb : b = a + ys.length)
    (hold : old.length = ys.length) : setSlice (xs ++ (old ++ zs)) a b ys = xs ++ (ys ++ zs) := by
  subst ha hb
  rw [setSlice, Nat.max_eq_right (Nat.le_add_right _ _), List.take_left,
    List.drop_length_add_append, ← hold, List.drop_left]

theorem getElem?_setSlice (h : a + ys.length ≤ xs.length) :
    (setSlice xs a (a + ys.length) ys)[i]? =
      if a ≤ i ∧ i < a + ys.length then ys[i - a]? else xs[i]? := by
  have ha : (xs.take a).length = a := List.length_take_of_le (by omega)
  rw [setSlice, Nat.max_eq_right (Nat.le_add_right _ _)]
  rcases Nat.lt_or_ge i a with hi | hi
  · rw [List.getElem?_append_left (by omega), List.getElem?_take, if_pos hi,
      if_neg (by omega)]
  · rw [List.getElem?_append_right (by omega), ha]
    by_cases hlt : i < a + ys.length
    · rw [List.getElem?_append_left (by omega), if_pos ⟨hi, hlt⟩]
    · rw [List.getElem?_append_right (by omega), List.getElem?_drop, if_neg (by omega)]
      congr 1
      omega

theorem length_setSlice (h : a + ys.length ≤ xs.length) :
    (setSlice xs a (a + ys.length) ys).length = xs.length := by
  rw [setSlice, Nat.max_eq_right (Nat.le_add_right _ _), List.length_append, List.length_append,
    List.length_take, List.length_drop]
  omega

end Slices

/-! ## Blocks of one size -/

section Blocks

variable {k n total : Nat} {f : α → List β} {l : List α} {a : α}

theorem slice_flatMap (hf : ∀ a ∈ l, (f a).length = k) (h : l[n]? = some a) :
    slice (l.flatMap f) (k * n) (k * (n + 1)) = f a := by
  induction l generalizing n with
  | nil => cases h
  | cons b l ih =>
    have hcons := List.forall_mem_cons.mp hf
    rw [List.flatMap_cons, slice, List.drop_take, Nat.mul_succ, Nat.add_sub_cancel_left]
    cases n with
    | zero =>
      cases h
      rw [Nat.mul_zero, List.drop_zero, ← hcons.1, List.take_left]
    | succ n =>
      have hk : k * (n + 1) = (f b).length + k * n := by
        rw [hcons.1, Nat.mul_succ, Nat.add_comm]
      rw [hk, List.drop_length_add_append, ← ih hcons.2 h, slice, List.drop_take, Nat.mul_succ,
        Nat.add_sub_cancel_left]

theorem length_flatMap_blocks (hf : ∀ a ∈ l, (f a).length = k) :
    (l.flatMap f).length = k * l.length := by
  induction l with
  | nil => rfl
  | cons a l ih =>
    have hcons := List.forall_mem_cons.mp hf
    rw [List.flatMap_cons, List.length_append, hcons.1, ih hcons.2, List.length_cons, Nat.mul_succ,
      Nat.add_comm]

/-- A list in blocks of `k` is the list again. -/
theorem flatMap_slice (xs : List β) (k total : Nat) :
    (List.range total).flatMap (fun n => slice xs (k * n) (k * (n + 1))) =
      slice xs 0 (k * total) := by
  induction total with
  | zero =>
    rw [Nat.mul_zero]
    rfl
  | succ total ih =>
    rw [List.range_succ, List.flatMap_append, ih, List.flatMap_singleton]
    exact slice_append_slice (Nat.zero_le _) (Nat.mul_le_mul_left k (Nat.le_succ total))

/-- Blocks that are made one after the other and appended. -/
theorem foldlM_append {f : α → Option (List β)} {g : α → List β} (h : ∀ a ∈ l, f a = some (g a))
    (out : List β) :
    l.foldlM (fun out a => do
      let block ← f a
      pure (out ++ block)) out = some (out ++ l.flatMap g) := by
  induction l generalizing out with
  | nil =>
    rw [List.flatMap_nil, List.append_nil]
    rfl
  | cons a l ih =>
    have hcons := List.forall_mem_cons.mp h
    rw [List.foldlM_cons, hcons.1, List.flatMap_cons, ← List.append_assoc]
    exact ih hcons.2 (out ++ g a)

end Blocks

/-! ## Words -/

/-- The `k` bytes of `v`, least significant first. -/
def toLe : Nat → Nat → List UInt8
  | 0, _ => []
  | k + 1, v => UInt8.ofNat v :: toLe k (v / 256)

def ofLe : List UInt8 → Nat
  | [] => 0
  | b :: bytes => b.toNat + 256 * ofLe bytes

theorem length_toLe (k v : Nat) : (toLe k v).length = k := by
  induction k generalizing v with
  | zero => rfl
  | succ k ih => rw [toLe, List.length_cons, ih]

theorem ofLe_toLe {k v : Nat} (h : v < 256 ^ k) : ofLe (toLe k v) = v := by
  induction k generalizing v with
  | zero =>
    have hv : v = 0 := by omega
    rw [hv]
    rfl
  | succ k ih =>
    have hdiv : v / 256 < 256 ^ k := by
      rw [Nat.div_lt_iff_lt_mul (by decide), ← Nat.pow_succ]
      exact h
    have hbyte : (UInt8.ofNat v).toNat = v % 256 := rfl
    rw [toLe, ofLe, ih hdiv, hbyte]
    omega

/-! ## Placements -/

/-- Data and the offset it goes to. -/
structure Placement (α : Type) where
  off : Nat
  data : List α
  deriving DecidableEq, Repr

def Placement.span (p : Placement α) : Span := { start := p.off, length := p.data.length }

/-- Each placement in turn over what is there. -/
def fill (image : List α) (pairs : List (Placement α)) : List α :=
  pairs.foldl (fun image p => setSlice image p.off (p.off + p.data.length) p.data) image

section Placements

variable {image : List α} {pairs pairs' : List (Placement α)} {p : Placement α} {i j : Nat}

/-- The placements end within the list. -/
def Fit (image : List α) (pairs : List (Placement α)) : Prop :=
  ∀ p ∈ pairs, p.span.stop ≤ image.length

/-- No element belongs to two placements. -/
def Apart (pairs : List (Placement α)) : Prop :=
  pairs.Pairwise fun p q => p.span.Disjoint q.span

theorem fill_cons : fill image (p :: pairs) =
    fill (setSlice image p.off (p.off + p.data.length) p.data) pairs := rfl

theorem Fit.head (h : Fit image (p :: pairs)) : p.off + p.data.length ≤ image.length :=
  h p List.mem_cons_self

theorem Fit.tail (h : Fit image (p :: pairs)) :
    Fit (setSlice image p.off (p.off + p.data.length) p.data) pairs := by
  intro q hq
  rw [length_setSlice h.head]
  exact h q (List.mem_cons_of_mem p hq)

theorem length_fill (h : Fit image pairs) : (fill image pairs).length = image.length := by
  induction pairs generalizing image with
  | nil => rfl
  | cons p pairs ih => rw [fill_cons, ih h.tail, length_setSlice h.head]

/-- What no placement covers is as before. -/
theorem getElem?_fill_of_not_mem (h : Fit image pairs) (hi : ∀ p ∈ pairs, i ∉ p.span) :
    (fill image pairs)[i]? = image[i]? := by
  induction pairs generalizing image with
  | nil => rfl
  | cons p pairs ih =>
    have hp : ¬ (p.off ≤ i ∧ i < p.off + p.data.length) := hi p List.mem_cons_self
    rw [fill_cons, ih h.tail fun q hq => hi q (List.mem_cons_of_mem p hq),
      getElem?_setSlice h.head, if_neg hp]

/-- What a placement covers is its data, whatever is placed before and after it. -/
theorem getElem?_fill_of_mem (h : Fit image pairs) (hapart : Apart pairs) (hp : p ∈ pairs)
    (hi : i ∈ p.span) : (fill image pairs)[i]? = p.data[i - p.off]? := by
  induction pairs generalizing image with
  | nil => exact (List.not_mem_nil hp).elim
  | cons q pairs ih =>
    have hcons := List.pairwise_cons.mp hapart
    rw [fill_cons]
    rcases List.mem_cons.mp hp with rfl | hp
    · have hcovered : p.off ≤ i ∧ i < p.off + p.data.length := hi
      rw [getElem?_fill_of_not_mem h.tail fun q hq => hcons.1 q hq i hi,
        getElem?_setSlice h.head, if_pos hcovered]
    · exact ih h.tail hcons.2 hp

theorem Apart.perm (hperm : pairs.Perm pairs') (h : Apart pairs) : Apart pairs' :=
  (hperm.pairwise_iff Span.Disjoint.symm).mp h

/-- Placements apart from one another give the same in every order. -/
theorem fill_perm (hperm : pairs.Perm pairs') (h : Fit image pairs) (hapart : Apart pairs) :
    fill image pairs' = fill image pairs := by
  have h' : Fit image pairs' := fun p hp => h p (hperm.mem_iff.mpr hp)
  apply List.ext_getElem?
  intro i
  by_cases hi : ∃ p ∈ pairs, i ∈ p.span
  · obtain ⟨p, hp, hip⟩ := hi
    rw [getElem?_fill_of_mem h' (hapart.perm hperm) (hperm.mem_iff.mp hp) hip,
      getElem?_fill_of_mem h hapart hp hip]
  · push Not at hi
    rw [getElem?_fill_of_not_mem h' fun p hp => hi p (hperm.mem_iff.mpr hp),
      getElem?_fill_of_not_mem h hi]

/-- Each placement reads back at its offset. -/
theorem slice_fill (h : Fit image pairs) (hapart : Apart pairs) (hp : p ∈ pairs) :
    slice (fill image pairs) p.off (p.off + p.data.length) = p.data := by
  apply List.ext_getElem?
  intro i
  rw [getElem?_slice]
  by_cases hi : i < p.data.length
  · have hmem : p.off + i ∈ p.span := ⟨Nat.le_add_right _ _, Nat.add_lt_add_left hi _⟩
    rw [if_pos (Nat.add_lt_add_left hi _), getElem?_fill_of_mem h hapart hp hmem,
      Nat.add_sub_cancel_left]
  · rw [if_neg (by omega), List.getElem?_eq_none (Nat.le_of_not_lt hi)]

end Placements

end Library
end GarageDoor
