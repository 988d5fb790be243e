/-
The session that has nothing to write.

A declared length of zero runs the streaming loop zero times, so every check that
follows is about the empty image, and the mark is left to stand over whatever the
sink held before.
-/
import GarageDoor.Core.Ota.Session.Recorded
import GarageDoor.Core.Ota.Session.Stream

namespace GarageDoor
namespace Ota

open Library

variable {η φ ρ ε₁ ε₂ : Type}

/-- A mark stands over something the session itself wrote. -/
def MarksOwnWrites (calls : List (FlashCall ε₁)) : Prop :=
  ∀ pre result post, calls = pre ++ .markUpdated result :: post →
    ∃ offset data, data ≠ [] ∧ .write offset data (.ok ()) ∈ pre

theorem exists_write_of_image {calls : List (FlashCall ε₁)} (h : image calls ≠ []) :
    ∃ offset data, data ≠ [] ∧ .write offset data (.ok ()) ∈ calls := by
  induction calls with
  | nil => exact absurd rfl h
  | cons call calls ih =>
    by_cases hrest : image calls = []
    · cases call with
      | markUpdated result =>
        rw [show image (.markUpdated result :: calls) = image calls from rfl] at h
        exact absurd hrest h
      | write offset data result =>
        cases result with
        | error e =>
          rw [show image (.write offset data (.error e) :: calls) = image calls from rfl] at h
          exact absurd hrest h
        | ok u =>
          rw [show image (.write offset data (.ok u) :: calls) = data ++ image calls from rfl,
            hrest, List.append_nil] at h
          exact ⟨offset, data, h, List.mem_cons_self⟩
    · obtain ⟨offset, data, hne, hmem⟩ := ih hrest
      exact ⟨offset, data, hne, List.mem_cons_of_mem _ hmem⟩

/-- An empty image with the right digest is marked with nothing before the mark. -/
theorem applyUpdate_empty_calls (sha : StreamingDigest η Digest) (F : Flasher φ ε₁)
    (R : BodyReader ρ ε₂) (f : φ) (r : ρ) {expected : Digest} (h : sha.hash [] = expected) :
    (applyUpdate sha F.recorded R (f, []) r 0 expected).2.1.2 =
      [.markUpdated (F.markUpdated f).1] := by
  have hmark : F.recorded.markUpdated (f, []) =
      ((F.markUpdated f).1, (F.markUpdated f).2, [.markUpdated (F.markUpdated f).1]) := rfl
  rw [applyUpdate_empty sha F.recorded R (f, []) r h, hmark]
  cases (F.markUpdated f).1 <;> rfl

/-- A session marks only over its own writes exactly when the image it is to verify
is not the empty one. -/
theorem marksOwnWrites_iff (sha : StreamingDigest η Digest) (F : Flasher φ ε₁)
    (R : BodyReader ρ ε₂) (f : φ) (r : ρ) (contentLength : Nat) (expected : Digest) :
    MarksOwnWrites (applyUpdate sha F.recorded R (f, []) r contentLength expected).2.1.2 ↔
      contentLength ≠ 0 ∨ expected ≠ sha.hash [] := by
  constructor
  · intro h
    by_contra hempty
    simp only [ne_eq, not_or, not_not] at hempty
    obtain ⟨rfl, hhash⟩ := hempty
    rw [applyUpdate_empty_calls sha F R f r hhash.symm] at h
    obtain ⟨offset, data, -, hmem⟩ := h [] _ [] rfl
    exact absurd hmem List.not_mem_nil
  · intro h pre result post hcalls
    have hend := (applyUpdate_ends sha F R f r contentLength expected).2
    obtain ⟨-, -, hlength, hhash⟩ := hend.of_mark hcalls
    apply exists_write_of_image
    intro himage
    rw [himage] at hlength hhash
    rcases h with h | h
    · exact h hlength.symm
    · exact h hhash.symm

/-- The SHA-256 digest of the empty string. -/
def emptyDigest : Digest :=
  #v[0xe3, 0xb0, 0xc4, 0x42, 0x98, 0xfc, 0x1c, 0x14, 0x9a, 0xfb, 0xf4, 0xc8, 0x99, 0x6f, 0xb9, 0x24,
    0x27, 0xae, 0x41, 0xe4, 0x64, 0x9b, 0x93, 0x4c, 0xa4, 0x95, 0x99, 0x1b, 0x78, 0x52, 0xb8, 0x55]

/-- A digest that is that of SHA-256 on the empty string. -/
def agreeingOnEmpty : StreamingDigest (List UInt8) Digest :=
  .ofTable [([], emptyDigest)] (.replicate 32 0)

theorem agreeingOnEmpty_hash : agreeingOnEmpty.hash [] = emptyDigest := rfl

/-- A source with nothing to give. -/
def exhausted : BodyReader Unit Empty where
  read _ slice := ((.ok 0, slice), ())
  read_length _ _ := rfl

/-- A published image of no bytes is marked over whatever the sink held before. -/
theorem empty_body_marked :
    let out := applyUpdate agreeingOnEmpty storing.recorded exhausted (fun _ => some 7, []) () 0
      emptyDigest
    out.1 = .ok () ∧ out.2.1.1 0 = some 7 ∧ ¬ MarksOwnWrites out.2.1.2 := by
  have hrun := applyUpdate_empty agreeingOnEmpty storing.recorded exhausted (fun _ => some 7, []) ()
    agreeingOnEmpty_hash
  simp only [hrun]
  refine ⟨rfl, rfl, ?_⟩
  intro h
  obtain ⟨offset, data, -, hmem⟩ := h [] (.ok ()) [] rfl
  exact absurd hmem List.not_mem_nil

end Ota
end GarageDoor
