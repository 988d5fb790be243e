/-
The debouncer against a specification that looks back over all samples.

The debouncer keeps one candidate and the time it was first seen.  The specification
keeps nothing: it searches the samples so far for the last one of the committed state
and measures from the sample after it.
-/
import Mathlib.Data.List.Chain
import Mathlib.Data.List.Induction
import Mathlib.Data.List.DropRight
import GarageDoor.Core.Door.Debounce

namespace GarageDoor
namespace Door

/-- The arguments of one `update` call. -/
structure Sample where
  reedClosed : Bool
  nowMs : Nat
  deriving DecidableEq, Repr

/-- The level a sample shows, as a door state. -/
def Sample.level (x : Sample) : DoorState := .ofReed x.reedClosed

namespace ReedDebouncer

/-- The debouncer after a sequence of updates. -/
def feed (d : ReedDebouncer) (xs : List Sample) : ReedDebouncer :=
  xs.foldl (fun d x => (d.update x.reedClosed x.nowMs).2) d

/-- The states returned by a sequence of updates, each with the time of its call. -/
def emissions (d : ReedDebouncer) : List Sample → List (Nat × DoorState)
  | [] => []
  | x :: xs =>
    ((d.update x.reedClosed x.nowMs).1.map fun s => (x.nowMs, s)).toList ++
      emissions (d.update x.reedClosed x.nowMs).2 xs

end ReedDebouncer

/-! ## The specification -/

/-- One more than the index of the last sample at level `c`, or zero. -/
def runStart (c : DoorState) (xs : List Sample) : Nat :=
  (xs.rdropWhile fun x => x.level ≠ c).length

/-- A sample makes `s` the committed state: the run of samples that differ from `c`
began with an earlier sample, long enough ago. -/
def Commits (c : DoorState) (pre : List Sample) (x : Sample) (s : DoorState) : Prop :=
  x.level = s ∧ s ≠ c ∧ ∃ y, pre[runStart c pre]? = some y ∧ reedDebounceMs ≤ x.nowMs - y.nowMs

/-- The samples are taken at non-decreasing times. -/
def Ordered (xs : List Sample) : Prop := (xs.map Sample.nowMs).Pairwise (· ≤ ·)

instance (xs : List Sample) : Decidable (Ordered xs) :=
  inferInstanceAs (Decidable (List.Pairwise _ _))

theorem Ordered.init {xs : List Sample} {x : Sample} (h : Ordered (xs ++ [x])) :
    Ordered xs ∧ ∀ y ∈ xs, y.nowMs ≤ x.nowMs := by
  rw [Ordered, List.map_append, List.pairwise_append] at h
  refine ⟨h.1, fun y hy => ?_⟩
  exact h.2.2 y.nowMs (List.mem_map_of_mem hy) x.nowMs (by simp)

theorem runStart_append_of_eq {c : DoorState} {x : Sample} (xs : List Sample) (h : x.level = c) :
    runStart c (xs ++ [x]) = (xs ++ [x]).length := by
  rw [runStart, List.rdropWhile_concat_neg _ _ _ (by simpa using h)]

theorem runStart_append_of_ne {c : DoorState} {x : Sample} (xs : List Sample) (h : x.level ≠ c) :
    runStart c (xs ++ [x]) = runStart c xs := by
  rw [runStart, List.rdropWhile_concat_pos _ _ _ (by simpa using h), runStart]

theorem runStart_le (c : DoorState) (xs : List Sample) : runStart c xs ≤ xs.length :=
  (List.rdropWhile_prefix _ _).length_le

/-- From the start of the run on no sample is at the committed level. -/
theorem level_ne_of_runStart {c : DoorState} {xs : List Sample} {y : Sample} :
    ∀ {i : Nat}, runStart c xs ≤ i → xs[i]? = some y → y.level ≠ c := by
  induction xs using List.reverseRecOn with
  | nil =>
    intro i _ hy
    simp at hy
  | append_singleton xs x ih =>
    intro i hi hy
    by_cases hx : x.level = c
    · rw [runStart_append_of_eq xs hx] at hi
      rw [List.getElem?_eq_none hi] at hy
      cases hy
    · rw [runStart_append_of_ne xs hx] at hi
      rcases Nat.lt_or_ge i xs.length with hlt | hge
      · rw [List.getElem?_append_left hlt] at hy
        exact ih hi hy
      · rw [List.getElem?_append_right hge, List.getElem?_singleton] at hy
        split at hy
        · cases hy
          exact hx
        · cases hy

/-- The sample before the start of the run is at the committed level. -/
theorem level_eq_before_runStart {c : DoorState} {xs : List Sample} {i : Nat}
    (hi : runStart c xs = i + 1) : ∃ y, xs[i]? = some y ∧ y.level = c := by
  induction xs using List.reverseRecOn with
  | nil => simp [runStart] at hi
  | append_singleton xs x ih =>
    by_cases hx : x.level = c
    · rw [runStart_append_of_eq xs hx, List.length_append, List.length_singleton] at hi
      refine ⟨x, ?_, hx⟩
      rw [show i = xs.length by omega, List.getElem?_concat_length]
    · rw [runStart_append_of_ne xs hx] at hi
      obtain ⟨y, hy, hlevel⟩ := ih hi
      refine ⟨y, ?_, hlevel⟩
      rw [List.getElem?_append_left, hy]
      exact (List.getElem?_eq_some_iff.mp hy).1

/-! ## What the candidate remembers -/

namespace ReedDebouncer

@[simp] theorem feed_nil (d : ReedDebouncer) : d.feed [] = d := rfl

@[simp] theorem feed_append (d : ReedDebouncer) (xs ys : List Sample) :
    d.feed (xs ++ ys) = (d.feed xs).feed ys :=
  List.foldl_append

theorem feed_snoc (d : ReedDebouncer) (xs : List Sample) (x : Sample) :
    d.feed (xs ++ [x]) = ((d.feed xs).update x.reedClosed x.nowMs).2 := by
  rw [feed_append]
  rfl

theorem emissions_snoc (d : ReedDebouncer) (xs : List Sample) (x : Sample) :
    d.emissions (xs ++ [x]) = d.emissions xs ++
      (((d.feed xs).update x.reedClosed x.nowMs).1.map fun s => (x.nowMs, s)).toList := by
  induction xs generalizing d with
  | nil => exact List.append_nil _
  | cons y xs ih =>
    show _ ++ emissions _ (xs ++ [x]) = (_ ++ emissions _ xs) ++ _
    rw [ih, List.append_assoc]
    rfl

/-- The candidate is the first sample of the run that differs from the committed state. -/
def Remembers (d : ReedDebouncer) (xs : List Sample) : Prop :=
  d.pending = (xs[runStart d.committed xs]?).map fun y => (y.level, y.nowMs)

variable {d : ReedDebouncer} {xs : List Sample} {x : Sample}

/-- A candidate has the level of every sample that could follow it in the run. -/
theorem Remembers.pending (h : Remembers d xs) (hx : x.level ≠ d.committed) {y : Sample}
    (hy : xs[runStart d.committed xs]? = some y) : d.pending = some (x.level, y.nowMs) := by
  have hlevel := level_ne_of_runStart (Nat.le_refl _) hy
  rw [Remembers, hy] at h
  have heq : y.level = x.level := by
    cases hc : d.committed <;> cases hyl : y.level <;> cases hxl : x.level <;> simp_all
  rw [h, Option.map_some, heq]

theorem Remembers.not_pending (h : Remembers d xs) (hnone : xs[runStart d.committed xs]? = none) :
    d.pending = none := by
  rw [Remembers, hnone] at h
  exact h

/-- An update commits what the specification commits, and remembers the run it leaves. -/
theorem Remembers.update (h : Remembers d xs) (x : Sample) :
    (∀ s, (d.update x.reedClosed x.nowMs).1 = some s ↔ Commits d.committed xs x s) ∧
      Remembers (d.update x.reedClosed x.nowMs).2 (xs ++ [x]) ∧
      ((d.update x.reedClosed x.nowMs).2.isPending = true ↔
        x.level ≠ (d.update x.reedClosed x.nowMs).2.state) := by
  by_cases hx : x.level = d.committed
  · rw [update_same hx]
    refine ⟨?_, ?_, ?_⟩
    · intro s
      simp only [Commits, reduceCtorEq, false_iff]
      intro ⟨hs, hne, _⟩
      exact hne (hs.symm.trans hx)
    · show none = _
      rw [runStart_append_of_eq xs hx, List.getElem?_eq_none (Nat.le_refl _), Option.map_none]
    · simp [isPending, state, hx]
  cases hy : xs[runStart d.committed xs]? with
  | none =>
    have hstart : runStart d.committed xs = xs.length :=
      Nat.le_antisymm (runStart_le _ _) (List.getElem?_eq_none_iff.mp hy)
    rw [update_first hx fun t ht => by simp [h.not_pending hy] at ht]
    refine ⟨?_, ?_, ?_⟩
    · intro s
      simp [Commits, hy]
    · show some (x.level, x.nowMs) = _
      rw [runStart_append_of_ne xs hx, hstart, List.getElem?_concat_length, Option.map_some]
    · simpa [isPending, state] using hx
  | some y =>
    have hpending := h.pending hx hy
    rw [update_pending hx hpending]
    by_cases hdue : reedDebounceMs ≤ x.nowMs - y.nowMs
    · rw [if_pos hdue]
      refine ⟨?_, ?_, ?_⟩
      · intro s
        constructor
        · intro hs
          cases hs
          exact ⟨rfl, hx, y, hy, hdue⟩
        · intro ⟨hs, _⟩
          exact congrArg some hs
      · show none = ((xs ++ [x])[runStart x.level (xs ++ [x])]?).map _
        rw [runStart_append_of_eq xs rfl, List.getElem?_eq_none (Nat.le_refl _), Option.map_none]
      · simp [isPending, state, Sample.level]
    · rw [if_neg hdue]
      refine ⟨?_, ?_, ?_⟩
      · intro s
        simp only [Commits, hy, reduceCtorEq, false_iff]
        intro ⟨_, _, z, hz, hlong⟩
        cases hz
        exact hdue hlong
      · rw [Remembers, runStart_append_of_ne xs hx,
          List.getElem?_append_left (List.getElem?_eq_some_iff.mp hy).1]
        exact h
      · simpa [isPending, state, hpending] using hx

theorem remembers_feed (initial : DoorState) (xs : List Sample) :
    Remembers ((new initial).feed xs) xs := by
  induction xs using List.reverseRecOn with
  | nil => rfl
  | append_singleton xs x ih =>
    rw [feed_snoc]
    exact (ih.update x).2.1

/-! ## What is emitted -/

/-- The emissions so far alternate and lie apart, the last of them is the committed state,
and no run that still waits began before it. -/
structure Spaced (d : ReedDebouncer) (xs : List Sample) (os : List (Nat × DoorState)) : Prop where
  alternate : os.IsChain fun a b => a.2 ≠ b.2
  apart : os.IsChain fun a b => a.1 + reedDebounceMs ≤ b.1
  last : ∀ o ∈ os.getLast?, o.2 = d.committed
  waiting : ∀ o ∈ os.getLast?, ∀ c ∈ d.pending, o.1 ≤ c.2
  seen : ∀ o ∈ os.getLast?, ∃ y ∈ xs, y.nowMs = o.1

theorem spaced_feed (initial : DoorState) {xs : List Sample} (hxs : Ordered xs) :
    Spaced ((new initial).feed xs) xs ((new initial).emissions xs) := by
  induction xs using List.reverseRecOn with
  | nil => constructor <;> simp [emissions]
  | append_singleton xs x ih =>
    obtain ⟨hinit, hle⟩ := hxs.init
    have h := ih hinit
    have hseen : ∀ o ∈ ((new initial).emissions xs).getLast?, ∃ y ∈ xs ++ [x], y.nowMs = o.1 := by
      intro o ho
      obtain ⟨y, hy, he⟩ := h.seen o ho
      exact ⟨y, List.mem_append_left _ hy, he⟩
    rw [feed_snoc, emissions_snoc]
    rcases update_cases ((new initial).feed xs) x.reedClosed x.nowMs with
      ⟨-, hu⟩ | ⟨-, -, hu⟩ | ⟨_, -, -, -, hu⟩ | ⟨sinceMs, hne, hpending, hdue, hu⟩ <;>
      rw [hu] <;> simp only [Option.map_none, Option.toList_none, List.append_nil]
    · exact ⟨h.alternate, h.apart, h.last, by simp, hseen⟩
    · refine ⟨h.alternate, h.apart, h.last, ?_, hseen⟩
      intro o ho c hc
      cases hc
      obtain ⟨y, hy, he⟩ := h.seen o ho
      exact he ▸ hle y hy
    · exact ⟨h.alternate, h.apart, h.last, h.waiting, hseen⟩
    -- The run that is committed began after the last emission.
    · simp only [Option.map_some, Option.toList_some]
      have hgap : ∀ o ∈ ((new initial).emissions xs).getLast?,
          o.2 ≠ x.level ∧ o.1 + reedDebounceMs ≤ x.nowMs := by
        intro o ho
        have hlast := h.last o ho
        have hwait := h.waiting o ho _ hpending
        refine ⟨fun heq => hne (heq.symm.trans hlast), ?_⟩
        simp only [reedDebounceMs] at hdue ⊢
        omega
      constructor
      · refine List.isChain_append.mpr ⟨h.alternate, List.isChain_singleton _, ?_⟩
        intro a ha b hb
        cases hb
        exact (hgap a ha).1
      · refine List.isChain_append.mpr ⟨h.apart, List.isChain_singleton _, ?_⟩
        intro a ha b hb
        cases hb
        exact (hgap a ha).2
      · intro o ho
        rw [List.getLast?_concat, Option.mem_some] at ho
        exact ho ▸ rfl
      · simp
      · intro o ho
        rw [List.getLast?_concat, Option.mem_some] at ho
        exact ⟨x, by simp, ho ▸ rfl⟩

/-- After a sample its level is committed, or is that of the candidate. -/
theorem update_settles (d : ReedDebouncer) (x : Sample) :
    (x.level = (d.update x.reedClosed x.nowMs).2.committed ∧
      (d.update x.reedClosed x.nowMs).2.pending = none) ∨
    (x.level ≠ (d.update x.reedClosed x.nowMs).2.committed ∧
      ∃ t, (d.update x.reedClosed x.nowMs).2.pending = some (x.level, t)) := by
  rcases update_cases d x.reedClosed x.nowMs with
    ⟨heq, hu⟩ | ⟨hne, -, hu⟩ | ⟨t, hne, hpending, -, hu⟩ | ⟨_, -, -, -, hu⟩ <;> rw [hu]
  · exact .inl ⟨heq, rfl⟩
  · exact .inr ⟨hne, x.nowMs, rfl⟩
  · exact .inr ⟨hne, t, hpending⟩
  · exact .inl ⟨rfl, rfl⟩

/-- Between two samples of one level a third sample of that level is redundant. -/
theorem feed_redundant (d : ReedDebouncer) {a x b : Sample} (hx : x.level = a.level)
    (hb : b.level = a.level) (hle : x.nowMs ≤ b.nowMs) : d.feed [a, x, b] = d.feed [a, b] := by
  show feed (d.update a.reedClosed a.nowMs).2 [x, b] = feed (d.update a.reedClosed a.nowMs).2 [b]
  generalize hd : (d.update a.reedClosed a.nowMs).2 = e
  have hsettles := update_settles d a
  rw [hd, ← hx] at hsettles
  have hbx : b.level = x.level := hb.trans hx.symm
  rcases hsettles with ⟨heq, hnone⟩ | ⟨hne, t, hpending⟩
  · have hstay : (e.update x.reedClosed x.nowMs).2 = e := by
      rw [update_same heq, ← hnone]
    show feed (e.update x.reedClosed x.nowMs).2 [b] = e.feed [b]
    rw [hstay]
  · by_cases hdue : reedDebounceMs ≤ x.nowMs - t
    -- The third sample commits what the second one would commit.
    · have hdue' : reedDebounceMs ≤ b.nowMs - t := by omega
      have hne' : b.level ≠ e.committed := hbx ▸ hne
      have hpending' : e.pending = some (b.level, t) := hbx ▸ hpending
      have hcommit : (e.update x.reedClosed x.nowMs).2 =
          { committed := x.level, pending := none } := by
        rw [update_pending hne hpending, if_pos hdue]
        rfl
      have hcommit' : (e.update b.reedClosed b.nowMs).2 =
          { committed := b.level, pending := none } := by
        rw [update_pending hne' hpending', if_pos hdue']
        rfl
      show (((e.update x.reedClosed x.nowMs).2).update b.reedClosed b.nowMs).2 =
        (e.update b.reedClosed b.nowMs).2
      have hsame : (ReedDebouncer.mk x.level none).update b.reedClosed b.nowMs =
          (none, ⟨x.level, none⟩) := update_same hbx
      rw [hcommit, hcommit', hsame, hbx]
    · have hstay : (e.update x.reedClosed x.nowMs).2 = e := by
        rw [update_pending hne hpending, if_neg hdue]
      show feed (e.update x.reedClosed x.nowMs).2 [b] = e.feed [b]
      rw [hstay]

end ReedDebouncer

/-- What the debouncer is for, stated over a whole sequence of samples. -/
structure Debounced (initial : DoorState) (xs : List Sample) : Prop where
  commits : ∀ pre x post, xs = pre ++ x :: post →
    let d := (ReedDebouncer.new initial).feed pre
    let (emitted, d') := d.update x.reedClosed x.nowMs
    (∀ s, emitted = some s ↔ Commits d.state pre x s) ∧ d'.state = emitted.getD d.state ∧
      (d'.isPending = true ↔ x.level ≠ d'.state)
  alternate : ((ReedDebouncer.new initial).emissions xs).IsChain fun a b => a.2 ≠ b.2
  apart : ((ReedDebouncer.new initial).emissions xs).IsChain fun a b =>
    a.1 + reedDebounceMs ≤ b.1
  redundant : ∀ pre a b post, xs = pre ++ a :: b :: post → b.level = a.level →
    ∀ x : Sample, x.level = a.level → a.nowMs ≤ x.nowMs → x.nowMs ≤ b.nowMs →
      ∀ seen, seen <+: post →
        ((ReedDebouncer.new initial).feed (pre ++ a :: x :: b :: seen)).state =
          ((ReedDebouncer.new initial).feed (pre ++ a :: b :: seen)).state

/-- The debouncer does what its specification says, for every sequence of samples. -/
theorem debouncer_debounces (initial : DoorState) {xs : List Sample} (h : Ordered xs) :
    Debounced initial xs where
  commits := by
    intro pre x post hxs
    have hupdate := (ReedDebouncer.remembers_feed initial pre).update x
    exact ⟨hupdate.1, ReedDebouncer.update_state _ _ _, hupdate.2.2⟩
  alternate := (ReedDebouncer.spaced_feed initial h).alternate
  apart := (ReedDebouncer.spaced_feed initial h).apart
  redundant := by
    intro pre a b post hxs hb x hx _ hle seen _
    have hsplit : ∀ d : ReedDebouncer, d.feed (a :: x :: b :: seen) = d.feed (a :: b :: seen) := by
      intro d
      have := congrArg (ReedDebouncer.feed · seen) (d.feed_redundant hx hb hle)
      rwa [← ReedDebouncer.feed_append, ← ReedDebouncer.feed_append] at this
    rw [ReedDebouncer.feed_append, ReedDebouncer.feed_append, hsplit]

/-- A bounce, two stable samples and a return. -/
theorem debouncer_debounces_bounce : Debounced .closed
    [⟨false, 0⟩, ⟨true, 20⟩, ⟨false, 30⟩, ⟨false, 80⟩, ⟨true, 90⟩, ⟨true, 140⟩] :=
  debouncer_debounces .closed (by decide)

end Door
end GarageDoor
