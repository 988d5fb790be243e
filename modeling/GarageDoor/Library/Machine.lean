/-
Deterministic event machines, their runs, and the induction rules the run
results go through.

An asynchronous task is modelled as a machine whose states are its await points.
An event says what resolved the await and when.  A step is undefined where the
event cannot happen, so a run is a list of events whose steps are all defined.
What the outside can see of a step is listed as observations.
-/
import Mathlib.Data.List.Basic

namespace GarageDoor
namespace Library

structure Machine (σ ε ω : Type) where
  start : σ
  step : σ → ε → Option (σ × List ω)

namespace Machine

variable {σ ε ω : Type} (m : Machine σ ε ω)

/-- The state reached from `s` by a list of events, with everything observed on
the way, or `none` where some event was not possible. -/
def runFrom (s : σ) : List ε → Option (σ × List ω)
  | [] => some (s, [])
  | e :: es =>
    match m.step s e with
    | none => none
    | some (s', o) =>
      match runFrom s' es with
      | none => none
      | some (t, os) => some (t, o ++ os)

def run (es : List ε) : Option (σ × List ω) := m.runFrom m.start es

/-- Every step the events take from `s` meets `P`, up to the first event that is
not possible. -/
def Along (P : σ → ε → Prop) (s : σ) : List ε → Prop
  | [] => True
  | e :: es => P s e ∧ ∀ s' o, m.step s e = some (s', o) → Along P s' es

@[simp] theorem runFrom_nil (s : σ) : m.runFrom s [] = some (s, []) := rfl

variable {m}

theorem runFrom_cons {s t : σ} {e : ε} {es : List ε} {os : List ω} :
    m.runFrom s (e :: es) = some (t, os) ↔
      ∃ s' o os', m.step s e = some (s', o) ∧ m.runFrom s' es = some (t, os') ∧
        os = o ++ os' := by
  constructor
  · intro h
    rw [runFrom] at h
    split at h
    · simp at h
    · next s' o hs =>
      split at h
      · simp at h
      · next t' os' hr =>
        simp only [Option.some.injEq, Prod.mk.injEq] at h
        obtain ⟨rfl, rfl⟩ := h
        exact ⟨s', o, os', hs, hr, rfl⟩
  · rintro ⟨s', o, os', hs, hr, rfl⟩
    simp only [runFrom, hs, hr]

theorem runFrom_append {es fs : List ε} : ∀ {s t : σ} {os : List ω},
    m.runFrom s (es ++ fs) = some (t, os) ↔
      ∃ u os₁ os₂, m.runFrom s es = some (u, os₁) ∧ m.runFrom u fs = some (t, os₂) ∧
        os = os₁ ++ os₂ := by
  induction es with
  | nil =>
    intro s t os
    constructor
    · intro h
      exact ⟨s, [], os, rfl, h, rfl⟩
    · rintro ⟨u, os₁, os₂, hu, ht, rfl⟩
      simp only [runFrom_nil, Option.some.injEq, Prod.mk.injEq] at hu
      obtain ⟨rfl, rfl⟩ := hu
      exact ht
  | cons e es ih =>
    intro s t os
    rw [List.cons_append, runFrom_cons]
    constructor
    · rintro ⟨s', o, os', hs, hr, rfl⟩
      obtain ⟨u, os₁, os₂, hu, ht, rfl⟩ := ih.mp hr
      exact ⟨u, o ++ os₁, os₂, runFrom_cons.mpr ⟨s', o, os₁, hs, hu, rfl⟩, ht,
        (List.append_assoc _ _ _).symm⟩
    · rintro ⟨u, os₁, os₂, hu, ht, rfl⟩
      obtain ⟨s', o, os', hs, hr, rfl⟩ := runFrom_cons.mp hu
      exact ⟨s', o, os' ++ os₂, hs, ih.mpr ⟨u, os', os₂, hr, ht, rfl⟩,
        List.append_assoc _ _ _⟩

/-- A run goes on with a step of the state it reached. -/
theorem run_snoc {es : List ε} {e : ε} {s s' : σ} {os o : List ω}
    (h : m.run es = some (s, os)) (hs : m.step s e = some (s', o)) :
    m.run (es ++ [e]) = some (s', os ++ o) :=
  runFrom_append.mpr
    ⟨s, os, o, h, runFrom_cons.mpr ⟨s', o, [], hs, rfl, (List.append_nil o).symm⟩, rfl⟩

/-- Where every event of a kind is possible and keeps an invariant, so are runs of them. -/
theorem runFrom_progress {I : σ → Prop} {P : ε → Prop}
    (hstep : ∀ {s e}, I s → P e → ∃ s' o, m.step s e = some (s', o) ∧ I s') {es : List ε} :
    (∀ e ∈ es, P e) → ∀ {s : σ}, I s → ∃ t os, m.runFrom s es = some (t, os) ∧ I t := by
  induction es with
  | nil => exact fun _ s hs => ⟨s, [], rfl, hs⟩
  | cons e es ih =>
    intro hes s hs
    obtain ⟨he, hrest⟩ := List.forall_mem_cons.mp hes
    obtain ⟨s', o, hs', hI⟩ := hstep hs he
    obtain ⟨t, os, ht, hIt⟩ := ih hrest hI
    exact ⟨t, o ++ os, runFrom_cons.mpr ⟨s', o, os, hs', ht, rfl⟩, hIt⟩

/-- A run with a step that does not meet `P` splits at that step. -/
theorem exists_of_not_along {P : σ → ε → Prop} {es : List ε} : ∀ {s : σ},
    ¬ m.Along P s es → ∃ pre e post u os, es = pre ++ e :: post ∧
      m.runFrom s pre = some (u, os) ∧ ¬ P u e := by
  induction es with
  | nil => intro s h; exact absurd trivial h
  | cons e es ih =>
    intro s h
    by_cases hp : P s e
    · have hrest : ∃ s' o, m.step s e = some (s', o) ∧ ¬ m.Along P s' es := by
        by_contra hne
        push Not at hne
        exact h ⟨hp, hne⟩
      obtain ⟨s', o, hs, hn⟩ := hrest
      obtain ⟨pre, e', post, u, os, rfl, hu, hne⟩ := ih hn
      exact ⟨e :: pre, e', post, u, o ++ os, rfl,
        runFrom_cons.mpr ⟨s', o, os, hs, hu, rfl⟩, hne⟩
    · exact ⟨[], e, es, s, [], rfl, rfl, hp⟩

/-- The split of a run at a step that does not meet `P`. -/
theorem exists_step_of_not_along {P : σ → ε → Prop} {es : List ε} {s t : σ} {os : List ω}
    (hrun : m.runFrom s es = some (t, os)) (h : ¬ m.Along P s es) :
    ∃ pre e post u os₁ u' o os₂, es = pre ++ e :: post ∧ m.runFrom s pre = some (u, os₁) ∧
      ¬ P u e ∧ m.step u e = some (u', o) ∧ os = os₁ ++ (o ++ os₂) := by
  obtain ⟨pre, e, post, u, os₁, rfl, hpre, hne⟩ := exists_of_not_along h
  obtain ⟨v, os₁', os₂', hpre', hpost, rfl⟩ := runFrom_append.mp hrun
  cases hpre.symm.trans hpre'
  obtain ⟨u', o, os₂, hstep, -, rfl⟩ := runFrom_cons.mp hpost
  exact ⟨pre, e, post, u, os₁, u', o, os₂, rfl, hpre, hne, hstep, rfl⟩

theorem along_of_append {P : σ → ε → Prop} {es fs : List ε} : ∀ {s : σ},
    m.Along P s (es ++ fs) → m.Along P s es := by
  induction es with
  | nil => exact fun _ => trivial
  | cons e es ih => exact fun h => ⟨h.1, fun s' o hs => ih (h.2 s' o hs)⟩

theorem along_append {P : σ → ε → Prop} {es fs : List ε} : ∀ {s : σ}, m.Along P s es →
    (∀ t os, m.runFrom s es = some (t, os) → m.Along P t fs) → m.Along P s (es ++ fs) := by
  induction es with
  | nil => exact fun _ hfs => hfs _ [] rfl
  | cons e es ih =>
    intro s hes hfs
    refine ⟨hes.1, fun s' o hs => ih (hes.2 s' o hs) fun t os hrun => ?_⟩
    exact hfs t (o ++ os) (runFrom_cons.mpr ⟨s', o, os, hs, hrun, rfl⟩)

/-- A relation between the state, the events so far and the observations so far
that every step meeting `P` keeps, is kept by every run whose steps meet `P`. -/
theorem runFrom_history_along {I : σ → List ε → List ω → Prop} {P : σ → ε → Prop}
    (hstep : ∀ {s es os e s' o}, I s es os → P s e → m.step s e = some (s', o) →
      I s' (es ++ [e]) (os ++ o)) :
    ∀ {fs : List ε} {s t : σ} {es : List ε} {os os' : List ω},
      I s es os → m.Along P s fs → m.runFrom s fs = some (t, os') →
        I t (es ++ fs) (os ++ os') := by
  intro fs
  induction fs with
  | nil =>
    intro s t es os os' hI _ hrun
    simp only [runFrom_nil, Option.some.injEq, Prod.mk.injEq] at hrun
    obtain ⟨rfl, rfl⟩ := hrun
    simpa using hI
  | cons e fs ih =>
    intro s t es os os' hI hP hrun
    obtain ⟨s', o, os₁, hs, hr, rfl⟩ := runFrom_cons.mp hrun
    have := ih (hstep hI hP.1 hs) (hP.2 s' o hs) hr
    simpa [List.append_assoc] using this

theorem along_cons {P : σ → ε → Prop} {s s' : σ} {e : ε} {es : List ε} {o : List ω}
    (h : P s e) (hs : m.step s e = some (s', o)) (hrest : m.Along P s' es) :
    m.Along P s (e :: es) := by
  refine ⟨h, fun t o' ht => ?_⟩
  cases hs.symm.trans ht
  exact hrest

/-- What events meet in every state, they meet along the way. -/
theorem along_of_forall {P : σ → ε → Prop} {es : List ε} (h : ∀ e ∈ es, ∀ s, P s e) :
    ∀ s, m.Along P s es := by
  induction es with
  | nil => exact fun _ => trivial
  | cons e es ih =>
    obtain ⟨he, hrest⟩ := List.forall_mem_cons.mp h
    exact fun s => ⟨he s, fun s' _ _ => ih hrest s'⟩

/-- The run rule: what holds at the start and is kept by every step holds at the
end of every run. -/
theorem run_history {I : σ → List ε → List ω → Prop} (hstart : I m.start [] [])
    (hstep : ∀ {s es os e s' o}, I s es os → m.step s e = some (s', o) →
      I s' (es ++ [e]) (os ++ o))
    {es : List ε} {t : σ} {os : List ω} (hrun : m.run es = some (t, os)) : I t es os := by
  have := runFrom_history_along (P := fun _ _ => True) (fun hI _ hs => hstep hI hs)
    hstart (along_of_forall (fun _ _ _ => trivial) m.start) hrun
  simpa using this

theorem run_history_along {I : σ → List ε → List ω → Prop} {P : σ → ε → Prop}
    (hstart : I m.start [] [])
    (hstep : ∀ {s es os e s' o}, I s es os → P s e → m.step s e = some (s', o) →
      I s' (es ++ [e]) (os ++ o))
    {es : List ε} {t : σ} {os : List ω} (hP : m.Along P m.start es)
    (hrun : m.run es = some (t, os)) : I t es os := by
  simpa using runFrom_history_along hstep hstart hP hrun

/-- The exactness rule: where `P` keeps the observations good step by step, and a step
without it spoils them for good, they are good exactly along `P`. -/
theorem run_iff_along {I : σ → List ε → List ω → Prop} {P : σ → ε → Prop}
    {G : List ω → Prop} (hstart : I m.start [] []) (hnil : G [])
    (hkeep : ∀ {s es os e s' o}, I s es os → m.step s e = some (s', o) →
      I s' (es ++ [e]) (os ++ o))
    (hgood : ∀ {s es os e s' o}, I s es os → m.step s e = some (s', o) → P s e → G os →
      G (os ++ o))
    (hbad : ∀ {s es os e s' o os'}, I s es os → m.step s e = some (s', o) →
      G (os ++ (o ++ os')) → P s e)
    {es : List ε} {t : σ} {os : List ω} (hrun : m.run es = some (t, os)) :
    G os ↔ m.Along P m.start es := by
  constructor
  · intro h
    by_contra hnot
    obtain ⟨pre, e, post, u, os₁, u', o, os₂, rfl, hpre, hne, hstep, rfl⟩ :=
      exists_step_of_not_along hrun hnot
    exact hne (hbad (run_history hstart hkeep hpre) hstep h)
  · intro halong
    have hboth : I t es os ∧ G os :=
      run_history_along (I := fun s es os => I s es os ∧ G os) ⟨hstart, hnil⟩
        (fun hI hP hs => ⟨hkeep hI.1 hs, hgood hI.1 hs hP hI.2⟩) halong hrun
    exact hboth.2

/-- Where each step emits the front of what is still to come, or the last of it and the
period is next, the output is what was to come and then whole periods, up to some point. -/
theorem runFrom_periodic {I : σ → Prop} {P : ε → Prop} {rest : σ → List ω} {period : List ω}
    (hstep : ∀ {s e s' o}, I s → P e → m.step s e = some (s', o) →
      I s' ∧ (rest s = o ++ rest s' ∨ rest s = o ∧ rest s' = period)) {es : List ε} :
    ∀ {s t : σ} {os : List ω}, I s → (∀ e ∈ es, P e) → m.runFrom s es = some (t, os) →
      ∃ n, os <+: rest s ++ (List.replicate n period).flatten := by
  induction es with
  | nil =>
    intro s t os _ _ h
    cases h
    exact ⟨0, List.nil_prefix⟩
  | cons e es ih =>
    intro s t os hs hes h
    obtain ⟨he, hes⟩ := List.forall_mem_cons.mp hes
    obtain ⟨s', o, os', hs', hrest, rfl⟩ := runFrom_cons.mp h
    obtain ⟨hI, hrest'⟩ := hstep hs he hs'
    obtain ⟨n, hn⟩ := ih hI hes hrest
    rcases hrest' with heq | ⟨hlast, hperiod⟩
    · refine ⟨n, ?_⟩
      rw [heq, List.append_assoc]
      exact (List.prefix_append_right_inj o).mpr hn
    · refine ⟨n + 1, ?_⟩
      rw [hperiod] at hn
      rw [hlast, List.replicate_succ, List.flatten_cons]
      exact (List.prefix_append_right_inj o).mpr hn

end Machine

end Library
end GarageDoor
