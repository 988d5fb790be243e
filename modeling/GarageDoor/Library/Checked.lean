/-
Commands with checks.

A command ends with a value, with an error of its own, or in a fault: an assertion that
does not hold, a loop round after which no less is left to do.  That a command behaves
as a plain function says that no check of it fails.
-/
import GarageDoor.Library.Loop

namespace GarageDoor
namespace Library

inductive Outcome (σ ε α : Type) where
  | ok (value : α) (state : σ)
  | error (error : ε)
  | fault
  deriving DecidableEq, Repr

def Checked (σ ε α : Type) : Type := σ → Outcome σ ε α

variable {σ τ ε α β : Type}

def Outcome.bind (x : Outcome σ ε α) (f : α → Checked σ ε β) : Outcome σ ε β :=
  match x with
  | .ok a s => f a s
  | .error e => .error e
  | .fault => .fault

namespace Outcome

@[simp] theorem ok_bind (a : α) (s : σ) (f : α → Checked σ ε β) : (ok a s).bind f = f a s := rfl

@[simp] theorem error_bind (e : ε) (f : α → Checked σ ε β) :
    (error e : Outcome σ ε α).bind f = .error e := rfl

/-- What is returned, unless it is a fault. -/
def result : Outcome σ ε α → Option (Except ε α)
  | ok a _ => some (.ok a)
  | error e => some (.error e)
  | fault => none

end Outcome

namespace Checked

instance : Monad (Checked σ ε) where
  pure a s := .ok a s
  bind x f s := (x s).bind f

def get : Checked σ ε σ := fun s => .ok s s

def put (s : σ) : Checked σ ε Unit := fun _ => .ok () s

def throw (e : ε) : Checked σ ε α := fun _ => .error e

def fault : Checked σ ε α := fun _ => .fault

/-- An assertion. -/
def check (p : Prop) [Decidable p] : Checked σ ε Unit := if p then pure () else fault

/-- A command that may succeed only from a state to one that `r` relates to it. -/
def ensuring (r : σ → σ → Prop) [DecidableRel r] (c : Checked σ ε α) : Checked σ ε α := do
  let before ← get
  let a ← c
  let after ← get
  check (r before after)
  pure a

/-- Where a round that began in `s` leads; one that leaves no less to do is a fault. -/
def afterRound (size : σ → Nat) (s : σ) :
    Outcome σ ε (τ ⊕ α) → (τ × σ) ⊕ Outcome σ ε α
  | .ok (.inl t') s' => if size s' < size s then .inl (t', s') else .inr .fault
  | .ok (.inr a) s' => .inr (.ok a s')
  | .error e => .inr (.error e)
  | .fault => .inr .fault

theorem size_afterRound {size : σ → Nat} {s : σ} {o : Outcome σ ε (τ ⊕ α)} {p : τ × σ}
    (h : afterRound size s o = .inl p) : size p.2 < size s := by
  rcases o with ⟨t' | a, s'⟩ | e | _
  · by_cases hlt : size s' < size s
    · rw [afterRound, if_pos hlt, Sum.inl.injEq] at h
      rw [← h]
      exact hlt
    · rw [afterRound, if_neg hlt] at h
      cases h
  · cases h
  · cases h
  · cases h

/-- Rounds of `body` until one leaves the loop. -/
def rounds (size : σ → Nat) (body : τ → Checked σ ε (τ ⊕ α)) :
    Loop (τ × σ) (Outcome σ ε α) where
  body := fun (t, s) => afterRound size s (body t s)
  variant := fun (_, s) => size s
  decreases := fun h => size_afterRound h

def loop (size : σ → Nat) (body : τ → Checked σ ε (τ ⊕ α)) (t : τ) : Checked σ ε α :=
  fun s => (rounds size body).run (t, s)

@[simp] theorem pure_apply (a : α) (s : σ) : (pure a : Checked σ ε α) s = .ok a s := rfl

@[simp] theorem bind_apply (x : Checked σ ε α) (f : α → Checked σ ε β) (s : σ) :
    (x >>= f) s = (x s).bind f := rfl

@[simp] theorem throw_apply (e : ε) (s : σ) : (throw e : Checked σ ε α) s = .error e := rfl

@[simp] theorem get_apply (s : σ) : (get : Checked σ ε σ) s = .ok s s := rfl

@[simp] theorem put_apply (s s' : σ) : (put s' : Checked σ ε Unit) s = .ok () s' := rfl

theorem check_apply {p : Prop} [Decidable p] (h : p) (s : σ) :
    (check p : Checked σ ε Unit) s = .ok () s := by
  rw [check, if_pos h]
  rfl

end Checked

/-! ## Without a fault -/

/-- Two runs end alike, in no fault, and where they succeed in `Q`. -/
inductive Alike (Q : α → σ → Prop) : Outcome σ ε α → Outcome σ ε α → Prop
  | ok {a : α} {s : σ} (h : Q a s) : Alike Q (.ok a s) (.ok a s)
  | error (e : ε) : Alike Q (.error e) (.error e)

namespace Alike

variable {Q : α → σ → Prop} {R : β → σ → Prop} {x y : Outcome σ ε α}

theorem eq (h : Alike Q x y) : x = y := by cases h <;> rfl

theorem ne_fault (h : Alike Q x y) : x ≠ .fault := by cases h <;> exact nofun

theorem post (h : Alike Q x y) {a : α} {s : σ} (hx : x = .ok a s) : Q a s := by
  cases h with
  | ok h =>
    cases hx
    exact h
  | error e => cases hx

theorem mono {Q' : α → σ → Prop} (h : Alike Q x y) (hQ : ∀ a s, Q a s → Q' a s) :
    Alike Q' x y := by
  cases h with
  | ok h => exact .ok (hQ _ _ h)
  | error e => exact .error e

theorem bind {f g : α → Checked σ ε β} (h : Alike Q x y)
    (hf : ∀ a s, Q a s → Alike R (f a s) (g a s)) : Alike R (x.bind f) (y.bind g) := by
  cases h with
  | ok h => exact hf _ _ h
  | error e => exact .error e

/-- An ensured relation is one that holds anyway. -/
theorem ensuring {r : σ → σ → Prop} [DecidableRel r] {c : Checked σ ε α} {s : σ}
    (h : Alike Q (c s) y) (hr : ∀ a s', Q a s' → r s s') :
    Alike Q (Checked.ensuring r c s) y := by
  show Alike Q ((c s).bind fun a s' => (Checked.check (r s s') s').bind fun _ s' => .ok a s') y
  cases hc : c s with
  | ok a s' =>
    rw [hc] at h
    have hpost : r s s' := hr a s' (h.post rfl)
    show Alike Q ((Checked.check (r s s') s').bind fun _ s' => .ok a s') y
    rw [Checked.check_apply hpost]
    exact h
  | error e =>
    rw [hc] at h
    exact h
  | fault =>
    rw [hc] at h
    exact h

end Alike

/-- How a round of a loop may end that has to end in `y`. -/
inductive Round (size : σ → Nat) (I : τ → σ → Prop) (Q : α → σ → Prop) (y : Outcome σ ε α)
    (s : σ) : Outcome σ ε (τ ⊕ α) → Prop
  | again {t' : τ} {s' : σ} (hlt : size s' < size s) (hI : I t' s') :
    Round size I Q y s (.ok (.inl t') s')
  | leave {a : α} {s' : σ} (hy : y = .ok a s') (hQ : Q a s') :
    Round size I Q y s (.ok (.inr a) s')
  | error {e : ε} (hy : y = .error e) : Round size I Q y s (.error e)

/-- The loop rule: `I` says that what is left of the loop has to end in `y`. -/
theorem Alike.loop {size : σ → Nat} {body : τ → Checked σ ε (τ ⊕ α)} {I : τ → σ → Prop}
    {Q : α → σ → Prop} {y : Outcome σ ε α} {t : τ} {s : σ} (hI : I t s)
    (hround : ∀ t s, I t s → Round size I Q y s (body t s)) :
    Alike Q (Checked.loop size body t s) y := by
  refine Loop.run_step_rule (I := fun p => I p.1 p.2) (Q := fun o => Alike Q o y) hI ?_
  intro (t, s) hI
  show (∃ p, Checked.afterRound size s (body t s) = .inl p ∧ _) ∨
    ∃ o, Checked.afterRound size s (body t s) = .inr o ∧ _
  have h := hround t s hI
  generalize body t s = o at h
  cases h with
  | again hlt hI' => exact .inl ⟨_, if_pos hlt, hI'⟩
  | leave hy hQ =>
    rw [hy]
    exact .inr ⟨_, rfl, .ok hQ⟩
  | error hy =>
    rw [hy]
    exact .inr ⟨_, rfl, .error _⟩

/-! ## Success -/

/-- The run succeeds, in `Q`. -/
def Outcome.Returns (Q : α → σ → Prop) (x : Outcome σ ε α) : Prop := ∃ a s, x = .ok a s ∧ Q a s

theorem Outcome.Returns.bind {Q : α → σ → Prop} {R : β → σ → Prop} {x : Outcome σ ε α}
    {f : α → Checked σ ε β} (h : x.Returns Q) (hf : ∀ a s, Q a s → (f a s).Returns R) :
    (x.bind f).Returns R := by
  obtain ⟨a, s, rfl, hQ⟩ := h
  exact hf a s hQ

theorem Outcome.Returns.mono {Q R : α → σ → Prop} {x : Outcome σ ε α} (h : x.Returns Q)
    (hQR : ∀ a s, Q a s → R a s) : x.Returns R := by
  obtain ⟨a, s, hx, hQ⟩ := h
  exact ⟨a, s, hx, hQR a s hQ⟩

/-- A loop whose rounds succeed and leave less to do succeeds. -/
theorem Outcome.Returns.loop {size : σ → Nat} {body : τ → Checked σ ε (τ ⊕ α)}
    {I : τ → σ → Prop} {Q : α → σ → Prop} {t : τ} {s : σ} (hI : I t s)
    (hround : ∀ t s, I t s → (body t s).Returns fun r s' =>
      r.elim (fun t' => size s' < size s ∧ I t' s') fun a => Q a s') :
    (Checked.loop size body t s).Returns Q := by
  refine Loop.run_step_rule (I := fun p => I p.1 p.2) (Q := Outcome.Returns Q) hI ?_
  intro (t, s) hI
  obtain ⟨r, s', hbody, hr⟩ := hround t s hI
  show (∃ p, Checked.afterRound size s (body t s) = .inl p ∧ _) ∨
    ∃ o, Checked.afterRound size s (body t s) = .inr o ∧ _
  rw [hbody]
  cases r with
  | inl t' => exact .inl ⟨_, if_pos hr.1, hr.2⟩
  | inr a => exact .inr ⟨_, rfl, a, s', rfl, hr⟩

end Library
end GarageDoor
