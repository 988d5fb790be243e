/-
Base64 and Basic authorization, as they pull their input and fill their buffer.

The encoder pulls three bytes at a time and may find its source dry after any of them.
On a source that stays dry it writes the encoding of the listed bytes.
-/
import GarageDoor.Core.Ota.Policy
import GarageDoor.Library.Base64
import GarageDoor.Library.Iterator
import GarageDoor.Library.Split

namespace GarageDoor
namespace Ota

open Library Ascii

/-! ## The encoder as it stands -/

/-- An index out of range panics. -/
def store (out : List UInt8) (i : Nat) (b : UInt8) : Option (List UInt8) :=
  if i < out.length then some (out.set i b) else none

/-- Four characters at `o`, stored one by one. -/
def storeQuad (out : List UInt8) (o : Nat) (b₀ : UInt8) (b₁ b₂ : Option UInt8) :
    Option (List UInt8) :=
  let n := b₀.toNat * 2 ^ 16 + (b₁.getD 0).toNat * 2 ^ 8 + (b₂.getD 0).toNat
  store out o (base64Char n 18)
    |>.bind (store · (o + 1) (base64Char n 12))
    |>.bind (store · (o + 2) (if b₁.isSome then base64Char n 6 else 61))
    |>.bind (store · (o + 3) (if b₂.isSome then base64Char n 0 else 61))

theorem storeQuad_eq {out : List UInt8} {o : Nat} (h : o + 4 ≤ out.length) (b₀ : UInt8)
    (b₁ b₂ : Option UInt8) :
    storeQuad out o b₀ b₁ b₂ = some (base64Quad out o b₀ b₁ b₂) := by
  have hstore : ∀ (xs : List UInt8) (i : Nat) (b : UInt8), i < xs.length →
      store xs i b = some (xs.set i b) := fun _ _ _ hi => if_pos hi
  simp only [storeQuad, base64Quad]
  rw [hstore _ _ _ (by omega), Option.bind_some, hstore _ _ _ (by rw [List.length_set]; omega),
    Option.bind_some, hstore _ _ _ (by simp only [List.length_set]; omega), Option.bind_some,
    hstore _ _ _ (by simp only [List.length_set]; omega)]

theorem length_base64Quad (out : List UInt8) (o : Nat) (b₀ : UInt8) (b₁ b₂ : Option UInt8) :
    (base64Quad out o b₀ b₁ b₂).length = out.length := by
  simp only [base64Quad, List.length_set]

section

variable {σ : Type} (I : Iterator σ UInt8)

/-- The loop of `base64_fill`: a source, the buffer and the position in it.  `none` is a
panic. -/
def fillLoop : Loop (σ × List UInt8 × Nat) (Option (Option Nat × List UInt8)) where
  body := fun (next, out, o) =>
    match I.next next with
    | (none, _) => .inr (some (some o, out))
    | (some b₀, next) =>
      let (b₁, next) := I.next next
      let (b₂, next) := I.next next
      if out.length < o + 4 then
        .inr (some (none, out))
      else
        match storeQuad out o b₀ b₁ b₂ with
        | none => .inr none
        | some out => if b₂.isNone then .inr (some (some (o + 4), out)) else .inl (next, out, o + 4)
  variant := fun (_, out, o) => out.length - o
  decreases := by
    rintro ⟨next, out, o⟩ ⟨next', out', o'⟩ h
    rcases hb₀ : I.next next with ⟨b₀ | b₀, s₀⟩
    · simp [hb₀] at h
    by_cases hfull : out.length < o + 4
    · simp [hb₀, hfull] at h
    · have hquad := storeQuad_eq (Nat.le_of_not_lt hfull) b₀ (I.next s₀).1 (I.next (I.next s₀).2).1
      have hlength := length_base64Quad out o b₀ (I.next s₀).1 (I.next (I.next s₀).2).1
      simp only [hb₀, if_neg hfull, hquad] at h
      split at h
      · cases h
      · cases h
        simp only [hlength]
        omega

def base64FillFrom (next : σ) (out : List UInt8) : Option (Option Nat × List UInt8) :=
  (fillLoop I).run (next, out, 0)

end

def base64 (input out : List UInt8) : Option (Option Nat × List UInt8) :=
  base64FillFrom Iterator.slice input out

/-- `user`, a colon and `pass`, one after the other. -/
def credentials : Iterator (Option (Option Text × Option UInt8) × Text) UInt8 :=
  (Iterator.slice.chain Iterator.once).chain Iterator.slice

/-- `basic_authorization` with its chained source. -/
def basicAuthorizationFrom (user pass : Text) (out : List UInt8) :
    Option (Option Nat × List UInt8) :=
  let scheme := text "Basic "
  if user = [] ∧ pass = [] then
    some (none, out)
  else if out.length < scheme.length then
    some (none, out)
  else
    match base64FillFrom credentials (some (some user, some 58), pass)
        (out.drop scheme.length) with
    | none => none
    | some (none, rest) => some (none, scheme ++ rest)
    | some (some n, rest) => some (some (scheme.length + n), scheme ++ rest)

/-! ## What is pulled does not matter, only what is listed -/

theorem base64Fill_cons (out : List UInt8) (o : Nat) (b₀ : UInt8) (bytes : List UInt8) :
    base64Fill out o (b₀ :: bytes) =
      if out.length < o + 4 then (none, out)
      else if bytes.tail.head?.isNone then
        (some (o + 4), base64Quad out o b₀ bytes.head? bytes.tail.head?)
      else
        base64Fill (base64Quad out o b₀ bytes.head? bytes.tail.head?) (o + 4) bytes.tail.tail := by
  rcases bytes with _ | ⟨b₁, _ | ⟨b₂, bytes⟩⟩ <;> rw [base64Fill] <;> rfl

theorem fillLoop_run {σ : Type} {I : Iterator σ UInt8} (L : I.Listed) (next : σ)
    (out : List UInt8) (o : Nat) :
    (fillLoop I).run (next, out, o) = some (base64Fill out o (L.rest next)) := by
  refine Loop.run_step_rule
    (I := fun (next', out', o') => base64Fill out' o' (L.rest next') =
      base64Fill out o (L.rest next))
    (Q := fun r => r = some (base64Fill out o (L.rest next))) rfl ?_
  rintro ⟨next', out', o'⟩ hsame
  simp only at hsame
  have hfst := L.next_fst next'
  have hsnd := L.next_snd next'
  rcases hpull : I.next next' with ⟨b₀ | b₀, s₀⟩
  · rw [hpull, eq_comm, List.head?_eq_none_iff] at hfst
    rw [hfst, base64Fill] at hsame
    refine .inr ⟨some (some o', out'), ?_, congrArg some hsame⟩
    simp only [fillLoop, hpull]
  · rw [hpull, eq_comm, List.head?_eq_some_iff] at hfst
    obtain ⟨bytes, hbytes⟩ := hfst
    rw [hpull, hbytes, List.tail_cons] at hsnd
    -- The second and the third pull go on where the first one stopped, dry or not.
    have hb₁ : (I.next s₀).1 = bytes.head? := hsnd ▸ L.next_fst s₀
    have hs₁ : L.rest (I.next s₀).2 = bytes.tail := hsnd ▸ L.next_snd s₀
    have hb₂ : (I.next (I.next s₀).2).1 = bytes.tail.head? := hs₁ ▸ L.next_fst _
    have hs₂ : L.rest (I.next (I.next s₀).2).2 = bytes.tail.tail := hs₁ ▸ L.next_snd _
    rw [hbytes, base64Fill_cons] at hsame
    by_cases hfull : out'.length < o' + 4
    · rw [if_pos hfull] at hsame
      refine .inr ⟨some (none, out'), ?_, congrArg some hsame⟩
      simp only [fillLoop, hpull, if_pos hfull]
    · have hquad := storeQuad_eq (Nat.le_of_not_lt hfull) b₀ bytes.head? bytes.tail.head?
      rw [if_neg hfull] at hsame
      by_cases hdry : bytes.tail.head?.isNone = true
      · rw [if_pos hdry] at hsame
        refine .inr ⟨_, ?_, congrArg some hsame⟩
        simp only [fillLoop, hpull, if_neg hfull, hb₁, hb₂, hquad, if_pos hdry]
      · rw [if_neg hdry, ← hs₂] at hsame
        refine .inl ⟨((I.next (I.next s₀).2).2, base64Quad out' o' b₀ bytes.head? bytes.tail.head?,
          o' + 4), ?_, hsame⟩
        simp only [fillLoop, hpull, if_neg hfull, hb₁, hb₂, hquad, if_neg hdry]

def credentialsListed : credentials.Listed :=
  (Iterator.sliceListed.chain Iterator.onceListed).chain Iterator.sliceListed

theorem base64_eq (input out : List UInt8) : base64 input out = some (base64Fill out 0 input) :=
  fillLoop_run Iterator.sliceListed input out 0

/-- The chained source gives what the slice of all its bytes gives. -/
theorem basicAuthorizationFrom_eq (user pass : Text) (out : List UInt8) :
    basicAuthorizationFrom user pass out = some (basicAuthorization user pass out) := by
  have hrest : credentialsListed.rest (some (some user, some 58), pass) = user ++ 58 :: pass := by
    show (user ++ [58]) ++ pass = user ++ 58 :: pass
    rw [List.append_assoc]
    rfl
  have hfill := fillLoop_run credentialsListed (some (some user, some 58), pass)
    (out.drop (text "Basic ").length) 0
  rw [hrest] at hfill
  unfold basicAuthorizationFrom basicAuthorization base64FillFrom
  by_cases hempty : user = [] ∧ pass = []
  · simp only [if_pos hempty]
  · by_cases hshort : out.length < (text "Basic ").length
    · simp only [if_neg hempty, if_pos hshort]
    · simp only [if_neg hempty, if_neg hshort, hfill]
      rcases base64Fill (out.drop (text "Basic ").length) 0 (user ++ 58 :: pass) with
        ⟨n | n, rest⟩ <;> rfl

/-! ## What is written -/

theorem base64Char_eq (n shift : Nat) : base64Char n shift = Base64.symbolAt n shift := by
  have halphabet : ∀ v < 64, base64Alphabet.getD v 0 = Base64.symbol v := by decide
  exact halphabet _ (Nat.mod_lt _ (by decide))

/-- The four characters of a group that may lack its last bytes. -/
def quad (b₀ : UInt8) (b₁ b₂ : Option UInt8) : Text :=
  let n := Base64.group b₀ (b₁.getD 0) (b₂.getD 0)
  [Base64.symbolAt n 18, Base64.symbolAt n 12,
    if b₁.isSome then Base64.symbolAt n 6 else Base64.pad,
    if b₂.isSome then Base64.symbolAt n 0 else Base64.pad]

@[simp] theorem length_quad (b₀ : UInt8) (b₁ b₂ : Option UInt8) : (quad b₀ b₁ b₂).length = 4 := rfl

theorem base64Quad_append (pre post : List UInt8) (x₀ x₁ x₂ x₃ b₀ : UInt8)
    (b₁ b₂ : Option UInt8) :
    base64Quad (pre ++ x₀ :: x₁ :: x₂ :: x₃ :: post) pre.length b₀ b₁ b₂ =
      (pre ++ quad b₀ b₁ b₂) ++ post := by
  have hset : ∀ a b c d : UInt8, ((((pre ++ x₀ :: x₁ :: x₂ :: x₃ :: post).set pre.length a).set
      (pre.length + 1) b).set (pre.length + 2) c).set (pre.length + 3) d =
        (pre ++ [a, b, c, d]) ++ post := by
    intro a b c d
    simp
  simp only [base64Quad, base64Char_eq, hset]
  rfl

theorem exists_four {slot : List UInt8} (h : 4 ≤ slot.length) :
    ∃ x₀ x₁ x₂ x₃ post, slot = x₀ :: x₁ :: x₂ :: x₃ :: post := by
  match slot, h with
  | x₀ :: x₁ :: x₂ :: x₃ :: post, _ => exact ⟨x₀, x₁, x₂, x₃, post, rfl⟩

/-- `pre` and then the encoding of `input` in place of the front of `slot`, if there is
room for it. -/
structure Fills (pre slot input : List UInt8) (r : Option Nat × List UInt8) : Prop where
  length : r.2.length = (pre ++ slot).length
  full : slot.length < (Base64.encode input).length → r.1 = none
  fits : (Base64.encode input).length ≤ slot.length →
    r = (some (pre ++ Base64.encode input).length,
      (pre ++ Base64.encode input) ++ slot.drop (Base64.encode input).length)

theorem fills_nil (pre slot : List UInt8) : Fills pre slot [] (some pre.length, pre ++ slot) := by
  refine ⟨rfl, fun h => absurd h (Nat.not_lt_zero _), fun _ => ?_⟩
  simp [Base64.encode]

/-- One group, and whatever `next` makes of the rest. -/
theorem fills_group {pre slot input : List UInt8} (rest : List UInt8) {b₀ : UInt8}
    {b₁ b₂ : Option UInt8} (next : List UInt8 → Option Nat × List UInt8)
    (hencode : Base64.encode input = quad b₀ b₁ b₂ ++ Base64.encode rest)
    (hnext : ∀ post,
      Fills (pre ++ quad b₀ b₁ b₂) post rest (next ((pre ++ quad b₀ b₁ b₂) ++ post))) :
    Fills pre slot input
      (if (pre ++ slot).length < pre.length + 4 then (none, pre ++ slot)
      else next (base64Quad (pre ++ slot) pre.length b₀ b₁ b₂)) := by
  have hlength : (Base64.encode input).length = 4 + (Base64.encode rest).length := by
    rw [hencode, List.length_append, length_quad]
  rw [List.length_append]
  by_cases hfull : pre.length + slot.length < pre.length + 4
  · rw [if_pos hfull]
    refine ⟨rfl, fun _ => rfl, fun h => ?_⟩
    omega
  · rw [if_neg hfull]
    have hfour : 4 ≤ slot.length := by omega
    obtain ⟨x₀, x₁, x₂, x₃, post, rfl⟩ := exists_four hfour
    rw [base64Quad_append]
    have hrest := hnext post
    refine ⟨?_, fun h => hrest.full ?_, fun h => ?_⟩
    · rw [hrest.length]
      simp
      omega
    · simp only [List.length_cons] at h
      omega
    · simp only [List.length_cons] at h
      rw [hrest.fits (by omega), hlength, hencode, Nat.add_comm 4]
      simp

theorem base64Fill_fills (input pre slot : List UInt8) :
    Fills pre slot input (base64Fill (pre ++ slot) pre.length input) := by
  induction input using Base64.encode.induct generalizing pre slot with
  | case1 =>
    rw [base64Fill]
    exact fills_nil pre slot
  | case2 b₀ =>
    rw [base64Fill]
    refine fills_group [] (fun out => (some (pre.length + 4), out)) ?_ ?_
    · simp [Base64.encode, quad]
    · intro post
      have := fills_nil (pre ++ quad b₀ none none) post
      rwa [List.length_append] at this
  | case3 b₀ b₁ =>
    rw [base64Fill]
    refine fills_group [] (fun out => (some (pre.length + 4), out)) ?_ ?_
    · simp [Base64.encode, quad]
    · intro post
      have := fills_nil (pre ++ quad b₀ (some b₁) none) post
      rwa [List.length_append] at this
  | case4 b₀ b₁ b₂ bytes ih =>
    rw [base64Fill]
    refine fills_group bytes (fun out => base64Fill out (pre.length + 4) bytes) ?_ ?_
    · simp [Base64.encode, quad]
    · intro post
      have := ih (pre ++ quad b₀ (some b₁) (some b₂)) post
      rwa [List.length_append] at this

/-! ## The header -/

/-- Base64 in a buffer of its own. -/
theorem base64Fill_zero (input out : List UInt8) :
    Fills [] out input (base64Fill out 0 input) := base64Fill_fills input [] out

theorem Fills.none_iff {pre slot input : List UInt8} {r : Option Nat × List UInt8}
    (h : Fills pre slot input r) : r.1 = none ↔ slot.length < (Base64.encode input).length := by
  constructor
  · intro hnone
    refine Nat.lt_of_not_le fun hle => ?_
    rw [h.fits hle] at hnone
    cases hnone
  · exact h.full

theorem Fills.some {slot input : List UInt8} {r : Option Nat × List UInt8} {n : Nat}
    (h : Fills [] slot input r) (hn : r.1 = some n) :
    n = (Base64.encode input).length ∧ r.2.take n = Base64.encode input ∧
      r.2.drop n = slot.drop n := by
  have hfits : (Base64.encode input).length ≤ slot.length := by
    refine Nat.le_of_not_lt fun hlt => ?_
    rw [h.full hlt] at hn
    cases hn
  have hr := h.fits hfits
  rw [List.nil_append] at hr
  rw [hr] at hn ⊢
  obtain rfl := Option.some.inj hn
  exact ⟨rfl, List.take_left, List.drop_left⟩

theorem length_scheme : (text "Basic ").length = 6 := by decide

/-- The header value for these credentials. -/
def authorization (user pass : Text) : Text :=
  text "Basic " ++ Base64.encode (user ++ 58 :: pass)

theorem length_authorization (user pass : Text) :
    (authorization user pass).length = 6 + 4 * ((user.length + 1 + pass.length + 2) / 3) := by
  rw [authorization, List.length_append, length_scheme, Base64.length_encode, List.length_append,
    List.length_cons]
  omega

/-- The header value is written where it fits, if there are credentials. -/
theorem basicAuthorization_exact (user pass : Text) (out : List UInt8) :
    let r := basicAuthorization user pass out
    r.2.length = out.length ∧
      (r.1 = none ↔ (user = [] ∧ pass = []) ∨ out.length < (authorization user pass).length) ∧
      ∀ n, r.1 = some n → n = (authorization user pass).length ∧
        r.2.take n = authorization user pass ∧ r.2.drop n = out.drop n := by
  have hlength : (authorization user pass).length =
      6 + (Base64.encode (user ++ 58 :: pass)).length := by
    rw [authorization, List.length_append, length_scheme]
  by_cases hempty : user = [] ∧ pass = []
  · have hr : basicAuthorization user pass out = (none, out) := if_pos hempty
    rw [hr]
    exact ⟨rfl, ⟨fun _ => .inl hempty, fun _ => rfl⟩, by simp⟩
  by_cases hshort : out.length < (text "Basic ").length
  · have hr : basicAuthorization user pass out = (none, out) := by
      simp only [basicAuthorization, if_neg hempty, if_pos hshort]
    rw [length_scheme] at hshort
    rw [hr]
    exact ⟨rfl, ⟨fun _ => .inr (by omega), fun _ => rfl⟩, by simp⟩
  have hfill := base64Fill_zero (user ++ 58 :: pass) (out.drop (text "Basic ").length)
  have hsix := length_scheme
  have hroom := hfill.length
  have hnone := hfill.none_iff
  have hsome := fun n => hfill.some (n := n)
  simp only [basicAuthorization, if_neg hempty, if_neg hshort]
  generalize base64Fill (out.drop (text "Basic ").length) 0 (user ++ 58 :: pass) = r at *
  rw [List.nil_append, List.length_drop] at hroom
  rw [List.length_drop] at hnone
  rcases r with ⟨n | n, rest⟩ <;> simp only at hroom
  · simp only [true_iff] at hnone
    refine ⟨?_, ?_, by simp⟩
    · rw [List.length_append]
      omega
    · exact ⟨fun _ => .inr (by omega), fun _ => rfl⟩
  · obtain ⟨rfl, htake, hdrop⟩ := hsome n rfl
    simp only [reduceCtorEq, false_iff] at hnone
    refine ⟨?_, ?_, ?_⟩
    · rw [List.length_append]
      omega
    · simp only [reduceCtorEq, false_iff, not_or]
      exact ⟨hempty, by omega⟩
    · intro n hn
      obtain rfl := Option.some.inj hn
      refine ⟨by omega, ?_, ?_⟩
      · rw [List.take_length_add_append, htake]
        rfl
      · rw [List.drop_length_add_append, hdrop, List.drop_drop]

/-- Without a colon in the user names the header tells the credentials. -/
theorem authorization_injective {user user' pass pass' : Text} (huser : (58 : UInt8) ∉ user)
    (huser' : (58 : UInt8) ∉ user') (h : authorization user pass = authorization user' pass') :
    user = user' ∧ pass = pass' := by
  exact append_sep_inj huser huser' (Base64.encode_injective (List.append_cancel_left h))

/-- `base64` and `basic_authorization` are exact, invertible and bounded. -/
theorem authorization_exact :
    (∀ input out : List UInt8, ∃ r out', base64 input out = some (r, out') ∧
      out'.length = out.length ∧
      (r = none ↔ out.length < 4 * ((input.length + 2) / 3)) ∧
      ∀ n, r = some n → n = 4 * ((input.length + 2) / 3) ∧
        out'.take n = Base64.encode input ∧ Base64.decode (out'.take n) = some input ∧
        out'.drop n = out.drop n) ∧
    (∀ (user pass : Text) (out : List UInt8), ∃ r out',
      basicAuthorizationFrom user pass out = some (r, out') ∧ out'.length = out.length ∧
      (r = none ↔ (user = [] ∧ pass = []) ∨
        out.length < 6 + 4 * ((user.length + 1 + pass.length + 2) / 3)) ∧
      ∀ n, r = some n → n = 6 + 4 * ((user.length + 1 + pass.length + 2) / 3) ∧
        out'.take n = text "Basic " ++ Base64.encode (user ++ 58 :: pass) ∧
        out'.drop n = out.drop n) ∧
    (∀ (user pass user' pass' : Text) (out out' : List UInt8) (n n' : Nat)
      (buf buf' : List UInt8), (58 : UInt8) ∉ user → (58 : UInt8) ∉ user' →
        basicAuthorizationFrom user pass out = some (some n, buf) →
        basicAuthorizationFrom user' pass' out' = some (some n', buf') →
        buf.take n = buf'.take n' → user = user' ∧ pass = pass') := by
  refine ⟨?_, ?_, ?_⟩
  · intro input out
    have hfill := base64Fill_zero input out
    refine ⟨_, _, base64_eq input out, hfill.length, ?_, ?_⟩
    · rw [hfill.none_iff, Base64.length_encode]
    · intro n hn
      obtain ⟨hlength, htake, hdrop⟩ := hfill.some hn
      refine ⟨hlength.trans (Base64.length_encode input), htake, ?_, hdrop⟩
      rw [htake, Base64.decode_encode]
  · intro user pass out
    obtain ⟨hlength, hnone, hsome⟩ := basicAuthorization_exact user pass out
    rw [length_authorization] at hnone hsome
    exact ⟨_, _, basicAuthorizationFrom_eq user pass out, hlength, hnone, hsome⟩
  · intro user pass user' pass' out out' n n' buf buf' huser huser' hrun hrun' hsame
    rw [basicAuthorizationFrom_eq] at hrun hrun'
    have hbuf := (basicAuthorization_exact user pass out).2.2 n
    have hbuf' := (basicAuthorization_exact user' pass' out').2.2 n'
    rw [Option.some.inj hrun] at hbuf
    rw [Option.some.inj hrun'] at hbuf'
    apply authorization_injective huser huser'
    rw [← (hbuf rfl).2.1, ← (hbuf' rfl).2.1]
    exact hsame

end Ota
end GarageDoor
