/-
What one part of a machine sees of a run of the whole.

A part has a state inside that of the whole.  Some events of the whole are events of the
part, the others leave it alone.
-/
import GarageDoor.Library.Machine

namespace GarageDoor
namespace Library

/-- How a part sits in a machine: its state, its events and what shows of it. -/
structure Part (σ ε ω τ φ ψ : Type) where
  state : σ → τ
  event : ε → Option φ
  observation : ω → Option ψ

namespace Part

variable {σ ε ω τ φ ψ : Type}

def events (p : Part σ ε ω τ φ ψ) (es : List ε) : List φ := es.filterMap p.event

def observations (p : Part σ ε ω τ φ ψ) (os : List ω) : List ψ := os.filterMap p.observation

/-- One step of the whole is a step of the part, or the part stands still and shows nothing. -/
def Follows (p : Part σ ε ω τ φ ψ) (part : Machine τ φ ψ) (s : σ) (e : ε) (s' : σ)
    (o : List ω) : Prop :=
  match p.event e with
  | some e' => part.step (p.state s) e' = some (p.state s', p.observations o)
  | none => p.state s' = p.state s ∧ p.observations o = []

variable {p : Part σ ε ω τ φ ψ} {whole : Machine σ ε ω} {part : Machine τ φ ψ}

/-- A run of the whole is a run of the part. -/
theorem runFrom_project
    (hstep : ∀ {s e s' o}, whole.step s e = some (s', o) → p.Follows part s e s' o)
    {es : List ε} : ∀ {s t : σ} {os : List ω}, whole.runFrom s es = some (t, os) →
      part.runFrom (p.state s) (p.events es) = some (p.state t, p.observations os) := by
  induction es with
  | nil =>
    intro s t os h
    simp only [Machine.runFrom_nil, Option.some.injEq, Prod.mk.injEq] at h
    obtain ⟨rfl, rfl⟩ := h
    rfl
  | cons e es ih =>
    intro s t os h
    obtain ⟨s', o, os', hs, hrun, rfl⟩ := Machine.runFrom_cons.mp h
    have hfollows := hstep hs
    have hrest := ih hrun
    have happend : p.observations (o ++ os') = p.observations o ++ p.observations os' :=
      List.filterMap_append
    unfold Follows at hfollows
    rw [happend]
    cases he : p.event e with
    | some e' =>
      rw [he] at hfollows
      rw [events, List.filterMap_cons_some he]
      exact Machine.runFrom_cons.mpr ⟨p.state s', _, _, hfollows, hrest, rfl⟩
    | none =>
      rw [he] at hfollows
      rw [events, List.filterMap_cons_none he, hfollows.2, List.nil_append, ← hfollows.1]
      exact hrest

theorem run_project (hstart : p.state whole.start = part.start)
    (hstep : ∀ {s e s' o}, whole.step s e = some (s', o) → p.Follows part s e s' o)
    {es : List ε} {t : σ} {os : List ω} (h : whole.run es = some (t, os)) :
    part.run (p.events es) = some (p.state t, p.observations os) := by
  rw [Machine.run, ← hstart]
  exact runFrom_project hstep h

end Part

end Library
end GarageDoor
