/-
Properties of a trace that look at each entry together with the entries before it.
-/
import Mathlib.Data.List.Basic

namespace GarageDoor
namespace Library

/-- Every entry satisfies `P` together with the entries before it. -/
def EachAfter {ω : Type} (P : List ω → ω → Prop) (os : List ω) : Prop :=
  ∀ pre o post, os = pre ++ o :: post → P pre o

theorem eachAfter_nil {ω : Type} (P : List ω → ω → Prop) : EachAfter P [] := by
  intro pre o post h
  simp at h

theorem EachAfter.of_append {ω : Type} {P : List ω → ω → Prop} {os os' : List ω}
    (h : EachAfter P (os ++ os')) : EachAfter P os :=
  fun pre o post hx => h pre o (post ++ os') (by simp [hx])

theorem eachAfter_snoc {ω : Type} {P : List ω → ω → Prop} {os : List ω} {o : ω} :
    EachAfter P (os ++ [o]) ↔ EachAfter P os ∧ P os o := by
  constructor
  · intro h
    exact ⟨h.of_append, h os o [] rfl⟩
  · intro ⟨h, ho⟩ pre x post hx
    rcases List.eq_nil_or_concat post with rfl | ⟨post', y, rfl⟩
    · obtain ⟨rfl, hxo⟩ := List.append_inj' hx rfl
      rw [List.singleton_inj] at hxo
      exact hxo ▸ ho
    · have hx' : os ++ [o] = (pre ++ x :: post') ++ [y] := by simpa using hx
      exact h pre x post' (List.append_inj' hx' rfl).1

theorem EachAfter.append {ω : Type} {P : List ω → ω → Prop} {os os' : List ω}
    (h : EachAfter P os) (h' : ∀ o ∈ os', ∀ pre, P pre o) : EachAfter P (os ++ os') := by
  induction os' generalizing os with
  | nil => rwa [List.append_nil]
  | cons o os' ih =>
    have hsnoc : EachAfter P (os ++ [o]) :=
      eachAfter_snoc.mpr ⟨h, h' o List.mem_cons_self os⟩
    simpa using ih hsnoc fun x hx => h' x (List.mem_cons_of_mem o hx)

end Library
end GarageDoor
