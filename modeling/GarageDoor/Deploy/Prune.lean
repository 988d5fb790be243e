/-
The remote prune of `deploy.sh`.

The script compares the numbers of the releases as the shell computes them, in 64 bits.  It
keeps the version just published and the greatest one below it.
-/
import GarageDoor.Deploy
import Mathlib.Data.List.AList
import Mathlib.Order.Bounds.Basic

namespace GarageDoor
namespace Deploy

open Library Ascii

structure File where
  content : List UInt8
  /-- The web server may read it. -/
  readable : Bool
  deriving DecidableEq

/-- The remote directory. -/
abbrev Directory : Type := AList fun _ : Text => File

def binName (base : Text) : Text := base ++ text ".bin"

def shaName (base : Text) : Text := base ++ text ".bin.sha256"

/-- `${f%.bin}` of a name that `*.bin` matches. -/
def stem (f : Text) : Option Text :=
  if text ".bin" <:+ f then some (f.take (f.length - (text ".bin").length)) else none

/-- The base of a name that the loops do not skip. -/
def numbered (f : Text) : Option Text :=
  (stem f).filter fun base => base ≠ [] ∧ base.all isDigit

/-- `$((10#$ds))`, without a check for overflow. -/
def shellInt (ds : Text) : Int := (decimal ds : Int).bmod (2 ^ 64)

/-- One round of the first loop. -/
def previousStep (version : Int) (prev : Option Int) (n : Int) : Option Int :=
  if n < version then
    match prev with
    | none => some n
    | some p => if p < n then some n else some p
  else
    prev

def previous (version : Int) (bases : List Text) : Option Int :=
  (bases.map shellInt).foldl (previousStep version) none

/-- Whether the second loop removes a pair. -/
def isStale (version : Int) (prev : Option Int) (base : Text) : Bool :=
  shellInt base ≠ version ∧ some (shellInt base) ≠ prev

def bases (dir : Directory) : List Text := dir.keys.filterMap numbered

/-- The names that the second loop removes. -/
def prune (version : Text) (dir : Directory) : List Text :=
  let prev := previous (shellInt version) (bases dir)
  ((bases dir).filter (isStale (shellInt version) prev)).flatMap fun base =>
    [binName base, shaName base]

/-! ## Names -/

section

variable {base base' f version : Text}

/-- A base that the loops do not skip. -/
def Digits (base : Text) : Prop := base ≠ [] ∧ ∀ b ∈ base, isDigit b = true

instance (base : Text) : Decidable (Digits base) :=
  @instDecidableAnd _ _ inferInstance (List.decidableBAll _ base)

theorem stem_eq_some : stem f = some base ↔ f = binName base := by
  unfold stem binName
  constructor
  · intro h
    split at h
    · next hsuffix =>
      cases h
      obtain ⟨front, rfl⟩ := hsuffix
      rw [List.length_append, Nat.add_sub_cancel, List.take_left]
    · cases h
  · rintro rfl
    rw [if_pos (List.suffix_append _ _), List.length_append, Nat.add_sub_cancel, List.take_left]

theorem numbered_eq_some : numbered f = some base ↔ f = binName base ∧ Digits base := by
  rw [numbered, Option.filter_eq_some_iff, stem_eq_some]
  simp [Digits]

theorem binName_inj (h : binName base = binName base') : base = base' :=
  List.append_cancel_right h

theorem shaName_inj (h : shaName base = shaName base') : base = base' :=
  List.append_cancel_right h

/-- The names of images and of checksums end differently. -/
theorem binName_ne_shaName (base base' : Text) : binName base ≠ shaName base' := by
  intro h
  have hlast := congrArg List.getLast? h
  have hbin : text ".bin" = [46, 98, 105] ++ [110] := by decide
  have hsha : text ".bin.sha256" = [46, 98, 105, 110, 46, 115, 104, 97, 50, 53] ++ [54] := by decide
  rw [binName, shaName, hbin, hsha, ← List.append_assoc, ← List.append_assoc,
    List.getLast?_concat, List.getLast?_concat] at hlast
  exact absurd hlast (by decide)

theorem mem_bases {dir : Directory} : base ∈ bases dir ↔ Digits base ∧ binName base ∈ dir := by
  rw [bases, List.mem_filterMap]
  constructor
  · rintro ⟨f, hf, hbase⟩
    obtain ⟨rfl, hdigits⟩ := numbered_eq_some.mp hbase
    exact ⟨hdigits, AList.mem_keys.mpr hf⟩
  · rintro ⟨hdigits, hmem⟩
    exact ⟨binName base, AList.mem_keys.mp hmem, numbered_eq_some.mpr ⟨rfl, hdigits⟩⟩

end

/-! ## The version before -/

/-- The greatest member, if there is a member. -/
def GreatestOf (S : Set Int) : Option Int → Prop
  | none => S = ∅
  | some p => IsGreatest S p

/-- The numbers of the releases below a version. -/
def below (version : Int) (dir : Directory) : Set Int :=
  {n | n < version ∧ ∃ base ∈ bases dir, shellInt base = n}

section

variable {version n : Int} {prev : Option Int} {S : Set Int} {dir : Directory}

theorem GreatestOf.eq_some {p : Int} (h : GreatestOf S prev) : prev = some p ↔ IsGreatest S p := by
  cases prev with
  | none =>
    have hempty : S = ∅ := h
    rw [hempty]
    exact ⟨nofun, fun hp => (Set.mem_empty_iff_false p).mp hp.1 |>.elim⟩
  | some q =>
    have hgreatest : IsGreatest S q := h
    rw [Option.some.injEq]
    constructor
    · rintro rfl
      exact hgreatest
    · exact fun hp => hgreatest.unique hp

theorem GreatestOf.skip (h : GreatestOf S prev) (hn : ¬ n < version) :
    GreatestOf S (previousStep version prev n) := by
  unfold previousStep
  rwa [if_neg hn]

theorem GreatestOf.count (h : GreatestOf S prev) (hn : n < version) :
    GreatestOf (insert n S) (previousStep version prev n) := by
  unfold previousStep
  rw [if_pos hn]
  cases prev with
  | none =>
    have hempty : S = ∅ := h
    rw [hempty]
    refine ⟨Set.mem_insert n ∅, fun m hm => ?_⟩
    rcases hm with rfl | hm
    · exact le_refl m
    · exact hm.elim
  | some p =>
    have hgreatest : IsGreatest S p := h
    by_cases hlt : p < n
    · simp only [if_pos hlt]
      refine ⟨Set.mem_insert n S, fun m hm => ?_⟩
      rcases hm with rfl | hm
      · exact le_refl m
      · exact le_trans (hgreatest.2 hm) (le_of_lt hlt)
    · simp only [if_neg hlt]
      refine ⟨Set.mem_insert_of_mem n hgreatest.1, fun m hm => ?_⟩
      rcases hm with rfl | hm
      · exact not_lt.mp hlt
      · exact hgreatest.2 hm

/-- The first loop finds the greatest of the numbers below the version. -/
theorem greatestOf_foldl (version : Int) (ns : List Int) (h : GreatestOf S prev) :
    GreatestOf (S ∪ {n | n ∈ ns ∧ n < version}) (ns.foldl (previousStep version) prev) := by
  induction ns generalizing S prev with
  | nil => simpa using h
  | cons n ns ih =>
    rw [List.foldl_cons]
    by_cases hn : n < version
    · have hset : S ∪ {m | m ∈ n :: ns ∧ m < version} =
          insert n S ∪ {m | m ∈ ns ∧ m < version} := by
        ext m
        simp only [Set.mem_union, Set.mem_ofPred_eq, List.mem_cons, Set.mem_insert_iff]
        grind
      rw [hset]
      exact ih (h.count hn)
    · have hset : S ∪ {m | m ∈ n :: ns ∧ m < version} = S ∪ {m | m ∈ ns ∧ m < version} := by
        ext m
        simp only [Set.mem_union, Set.mem_ofPred_eq, List.mem_cons]
        grind
      rw [hset]
      exact ih (h.skip hn)

theorem greatestOf_previous (version : Int) (dir : Directory) :
    GreatestOf (below version dir) (previous version (bases dir)) := by
  have hstart : GreatestOf ∅ none := rfl
  have hfold := greatestOf_foldl version ((bases dir).map shellInt) hstart
  have hset : below version dir =
      ∅ ∪ {n | n ∈ (bases dir).map shellInt ∧ n < version} := by
    ext n
    simp only [below, Set.empty_union, Set.mem_ofPred_eq, List.mem_map]
    exact and_comm
  rw [hset]
  exact hfold

theorem isStale_iff {base : Text} : isStale version (previous version (bases dir)) base = true ↔
    shellInt base ≠ version ∧ ¬ IsGreatest (below version dir) (shellInt base) := by
  rw [isStale, decide_eq_true_iff, ← (greatestOf_previous version dir).eq_some]
  exact and_congr_right fun _ => not_congr eq_comm

/-- The prune removes the pair of a release exactly if its number is neither the version
that was published nor the greatest of those below it. -/
theorem mem_prune {version name : Text} {dir : Directory} : name ∈ prune version dir ↔
    ∃ base, (name = binName base ∨ name = shaName base) ∧ Digits base ∧ binName base ∈ dir ∧
      shellInt base ≠ shellInt version ∧
      ¬ IsGreatest (below (shellInt version) dir) (shellInt base) := by
  simp only [prune, List.mem_flatMap, List.mem_filter, isStale_iff, mem_bases, List.mem_cons,
    List.not_mem_nil, or_false]
  constructor
  · rintro ⟨base, ⟨⟨hdigits, hmem⟩, hstale⟩, hname⟩
    exact ⟨base, hname, hdigits, hmem, hstale⟩
  · rintro ⟨base, hname, hdigits, hmem, hstale⟩
    exact ⟨base, ⟨⟨hdigits, hmem⟩, hstale⟩, hname⟩

end

end Deploy
end GarageDoor
