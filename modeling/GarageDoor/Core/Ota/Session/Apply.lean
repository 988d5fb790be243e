/-
The streaming verified update session.

The flash sink and the body source are arbitrary: every call may fail and may
leave its party in any state.  A reader is given a slice of the buffer and returns
the slice as it left it beside the byte count it reports, which need not be the
number of bytes it put there.
-/
import GarageDoor.Core.Flash
import GarageDoor.Library.Digest
import GarageDoor.Library.Loop

namespace GarageDoor
namespace Ota

open Library Flash

/-- Streaming chunk size for the body. -/
def chunkBytes : Nat := 4096

abbrev Digest : Type := Vector UInt8 32

/-- Sink for a streamed image. -/
structure Flasher (φ ε : Type) where
  write : φ → Nat → List UInt8 → Except ε Unit × φ
  markUpdated : φ → Except ε Unit × φ

/-- Source of an image body; a count of zero signals the end. -/
structure BodyReader (ρ ε : Type) where
  read : ρ → List UInt8 → (Except ε Nat × List UInt8) × ρ
  read_length : ∀ r slice, (read r slice).1.2.length = slice.length

inductive UpdateError (ε₁ ε₂ : Type) where
  | oversize (length capacity : Nat)
  | tooShort
  | tooLong
  | hashMismatch
  | flash (error : ε₁)
  | read (error : ε₂)
  deriving DecidableEq, Repr

section

variable {η φ ρ ε₁ ε₂ : Type} (sha : StreamingDigest η Digest) (F : Flasher φ ε₁)
  (R : BodyReader ρ ε₂)

/-- The local variables of `apply_update` beside its two parties. -/
structure Progress (η φ ρ : Type) where
  buf : List UInt8
  hasher : η
  offset : Nat
  total : Nat
  flasher : φ
  body : ρ

/-- How an iteration of the loop ends when it does not go round again. -/
abbrev Exit (η φ ρ ε₁ ε₂ : Type) : Type :=
  Progress η φ ρ × Option (UpdateError ε₁ ε₂)

/-- The bytes the next read asks for. -/
def Progress.remaining (s : Progress η φ ρ) (contentLength : Nat) : Nat :=
  min (contentLength - s.total) s.buf.length

/-- The buffer after a read that left `slice` in its front. -/
def Progress.refill (s : Progress η φ ρ) (slice : List UInt8) (body : ρ) : Progress η φ ρ :=
  { s with buf := slice ++ s.buf.drop slice.length, body }

/-- One iteration: read a chunk, hash it, write it. -/
def streamChunk (contentLength : Nat) (s : Progress η φ ρ) :
    Progress η φ ρ ⊕ Exit η φ ρ ε₁ ε₂ :=
  if s.total < contentLength then
    let remaining := s.remaining contentLength
    match R.read s.body (s.buf.take remaining) with
    | ((.error e, slice), body) => .inr (s.refill slice body, some (.read e))
    | ((.ok n, slice), body) =>
      let s := s.refill slice body
      if n = 0 then
        .inr (s, none)
      else if remaining < n then
        .inr (s, some .tooLong)
      else
        let s := { s with total := s.total + n, hasher := sha.update s.hasher (s.buf.take n) }
        match F.write s.flasher s.offset (s.buf.take n) with
        | (.error e, flasher) => .inr ({ s with flasher }, some (.flash e))
        | (.ok (), flasher) => .inl { s with flasher, offset := s.offset + n }
  else
    .inr (s, none)

/-- The state once `data` is hashed, with the sink as the write left it. -/
def Progress.absorb (s : Progress η φ ρ) (slice : List UInt8) (body : ρ) (data : List UInt8)
    (flasher : φ) : Progress η φ ρ :=
  { s.refill slice body with
    total := s.total + data.length, hasher := sha.update s.hasher data, flasher }

/-- Every way through one iteration. -/
inductive StreamStep (contentLength : Nat) (s : Progress η φ ρ) :
    Progress η φ ρ ⊕ Exit η φ ρ ε₁ ε₂ → Prop where
  | finished (h : contentLength ≤ s.total) : StreamStep contentLength s (.inr (s, none))
  | readError {e slice body} (hlt : s.total < contentLength)
      (hread : R.read s.body (s.buf.take (s.remaining contentLength)) =
        ((.error e, slice), body)) :
      StreamStep contentLength s (.inr (s.refill slice body, some (.read e)))
  | ended {slice body} (hlt : s.total < contentLength)
      (hread : R.read s.body (s.buf.take (s.remaining contentLength)) =
        ((.ok 0, slice), body)) :
      StreamStep contentLength s (.inr (s.refill slice body, none))
  | tooLong {n slice body} (hlt : s.total < contentLength)
      (hread : R.read s.body (s.buf.take (s.remaining contentLength)) =
        ((.ok n, slice), body))
      (hn : s.remaining contentLength < n) :
      StreamStep contentLength s (.inr (s.refill slice body, some .tooLong))
  | flashError {slice body data flasher e} (hlt : s.total < contentLength)
      (hread : R.read s.body (s.buf.take (s.remaining contentLength)) =
        ((.ok data.length, slice), body))
      (hdata : data ≠ []) (hlen : data.length ≤ s.remaining contentLength)
      (hpre : data <+: slice)
      (hwrite : F.write s.flasher s.offset data = (.error e, flasher)) :
      StreamStep contentLength s (.inr (s.absorb sha slice body data flasher, some (.flash e)))
  | next {slice body data flasher} (hlt : s.total < contentLength)
      (hread : R.read s.body (s.buf.take (s.remaining contentLength)) =
        ((.ok data.length, slice), body))
      (hdata : data ≠ []) (hlen : data.length ≤ s.remaining contentLength)
      (hpre : data <+: slice)
      (hwrite : F.write s.flasher s.offset data = (.ok (), flasher)) :
      StreamStep contentLength s
        (.inl { s.absorb sha slice body data flasher with offset := s.offset + data.length })

theorem streamChunk_step (contentLength : Nat) (s : Progress η φ ρ) :
    StreamStep sha F R contentLength s (streamChunk sha F R contentLength s) := by
  by_cases hlt : s.total < contentLength
  · rcases hr : R.read s.body (s.buf.take (s.remaining contentLength)) with ⟨⟨result, slice⟩, body⟩
    have hslice : slice.length = s.remaining contentLength := by
      have := R.read_length s.body (s.buf.take (s.remaining contentLength))
      rw [hr, List.length_take] at this
      simp only [Progress.remaining] at this ⊢
      omega
    cases result with
    | error e =>
      simp only [streamChunk, if_pos hlt, hr]
      exact .readError hlt hr
    | ok n =>
      by_cases hn : n = 0
      · subst hn
        simp only [streamChunk, if_pos hlt, hr, if_true]
        exact .ended hlt hr
      · by_cases hlong : s.remaining contentLength < n
        · simp only [streamChunk, if_pos hlt, hr, if_neg hn, if_pos hlong]
          exact .tooLong hlt hr hlong
        · -- What is hashed and written lies in the slice the reader was given.
          have htake : (s.refill slice body).buf.take n = slice.take n :=
            List.take_append_of_le_length (by omega)
          have hlen : (slice.take n).length = n := by
            rw [List.length_take]
            omega
          have hne : slice.take n ≠ [] := by
            intro h
            rw [h] at hlen
            exact hn hlen.symm
          have hr' : R.read s.body (s.buf.take (s.remaining contentLength)) =
              ((.ok (slice.take n).length, slice), body) := by
            rw [hlen]
            exact hr
          rcases hw : F.write s.flasher s.offset (slice.take n) with ⟨written, flasher⟩
          simp only [streamChunk, if_pos hlt, hr, if_neg hn, if_neg hlong, htake]
          simp only [Progress.refill, hw]
          cases written with
          | error e =>
            have := @StreamStep.flashError _ _ _ _ _ sha F R _ _ _ _ _ _ _ hlt hr' hne (by omega)
              (List.take_prefix n slice) hw
            simpa [Progress.absorb, Progress.refill, hlen] using this
          | ok u =>
            have := @StreamStep.next _ _ _ _ _ sha F R _ _ _ _ _ _ hlt hr' hne (by omega)
              (List.take_prefix n slice) hw
            simpa [Progress.absorb, Progress.refill, hlen] using this
  · simp only [streamChunk, if_neg hlt]
    exact .finished (by omega)

theorem streamChunk_decreases {contentLength : Nat} {s s' : Progress η φ ρ}
    (h : streamChunk sha F R contentLength s = .inl s') :
    contentLength - s'.total < contentLength - s.total := by
  have hstep := streamChunk_step sha F R contentLength s
  rw [h] at hstep
  cases hstep with
  | next hlt _ hdata _ _ _ =>
    have := List.length_pos_iff.mpr hdata
    simp only [Progress.absorb, Progress.refill]
    omega

/-- Each iteration that goes round again has added at least one byte to `total`. -/
def streamLoop (contentLength : Nat) :
    Loop (Progress η φ ρ) (Exit η φ ρ ε₁ ε₂) where
  body := streamChunk sha F R contentLength
  variant s := contentLength - s.total
  decreases := streamChunk_decreases sha F R

/-- The local variables before the loop. -/
def Progress.start (flasher : φ) (body : ρ) : Progress η φ ρ :=
  { buf := List.replicate chunkBytes 0, hasher := sha.new, offset := 0, total := 0, flasher, body }

/-- What follows the loop: an error leaves at once, a complete image is checked and
marked. -/
def conclude (contentLength : Nat) (expected : Digest) :
    Exit η φ ρ ε₁ ε₂ → Except (UpdateError ε₁ ε₂) Unit × φ × ρ
  | (s, some e) => (.error e, s.flasher, s.body)
  | (s, none) =>
    if s.total ≠ contentLength then
      (.error .tooShort, s.flasher, s.body)
    else if sha.finalize s.hasher ≠ expected then
      (.error .hashMismatch, s.flasher, s.body)
    else
      match F.markUpdated s.flasher with
      | (.error e, flasher) => (.error (.flash e), flasher, s.body)
      | (.ok (), flasher) => (.ok (), flasher, s.body)

def applyUpdate (flasher : φ) (body : ρ) (contentLength : Nat) (expected : Digest) :
    Except (UpdateError ε₁ ε₂) Unit × φ × ρ :=
  if activeBytes < contentLength then
    (.error (.oversize contentLength activeBytes), flasher, body)
  else
    conclude sha F contentLength expected
      ((streamLoop sha F R contentLength).run (.start sha flasher body))

/-- What every call to the sink keeps, a session keeps. -/
theorem applyUpdate_keeps {P : φ → Prop}
    (hwrite : ∀ f offset data, P f → P (F.write f offset data).2)
    (hmark : ∀ f, P f → P (F.markUpdated f).2) {flasher : φ} (body : ρ) (contentLength : Nat)
    (expected : Digest) (h : P flasher) :
    P (applyUpdate sha F R flasher body contentLength expected).2.1 := by
  unfold applyUpdate
  by_cases hsize : activeBytes < contentLength
  · rw [if_pos hsize]
    exact h
  · have hloop :
        P ((streamLoop sha F R contentLength).run (.start sha flasher body)).1.flasher := by
      refine Loop.run_rule (I := fun s : Progress η φ ρ => P s.flasher)
        (Q := fun x : Exit η φ ρ ε₁ ε₂ => P x.1.flasher) h ?_ ?_
      · intro s s' hs hnext
        have hstep := streamChunk_step sha F R contentLength s
        rw [show streamChunk sha F R contentLength s = .inl s' from hnext] at hstep
        cases hstep with
        | @next slice body data flasher _ _ _ _ _ hw =>
          have := hwrite s.flasher s.offset data hs
          rwa [hw] at this
      · intro s x hs hexit
        have hstep := streamChunk_step sha F R contentLength s
        rw [show streamChunk sha F R contentLength s = .inr x from hexit] at hstep
        cases hstep with
        | finished _ => exact hs
        | readError _ _ => exact hs
        | ended _ _ => exact hs
        | tooLong _ _ _ => exact hs
        | @flashError slice body data flasher e _ _ _ _ _ hw =>
          have := hwrite s.flasher s.offset data hs
          rwa [hw] at this
    rw [if_neg hsize]
    generalize (streamLoop sha F R contentLength).run _ = x at hloop
    obtain ⟨s, ending⟩ := x
    cases ending with
    | some e => exact hloop
    | none =>
      have hmarked := hmark s.flasher hloop
      rcases hm : F.markUpdated s.flasher with ⟨result, flasher'⟩
      rw [hm] at hmarked
      simp only [conclude]
      by_cases htotal : s.total ≠ contentLength
      · rw [if_pos htotal]
        exact hloop
      by_cases hhash : sha.finalize s.hasher ≠ expected
      · rw [if_neg htotal, if_pos hhash]
        exact hloop
      rw [if_neg htotal, if_neg hhash, hm]
      cases result <;> exact hmarked

/-- An empty image with the right digest is marked at once. -/
theorem applyUpdate_empty (flasher : φ) (body : ρ) {expected : Digest}
    (h : sha.hash [] = expected) :
    applyUpdate sha F R flasher body 0 expected =
      match F.markUpdated flasher with
      | (.error e, flasher) => (.error (.flash e), flasher, body)
      | (.ok (), flasher) => (.ok (), flasher, body) := by
  have hloop : (streamLoop sha F R 0).run (.start sha flasher body) =
      (.start sha flasher body, none) := Loop.run_exit rfl
  have hhash : ¬ sha.finalize (Progress.start sha flasher body).hasher ≠ expected :=
    not_not.mpr (StreamingDigest.absorbed_new.finalize.trans h)
  rw [applyUpdate, if_neg (Nat.not_lt_zero _), hloop, conclude, if_neg (by simp [Progress.start]),
    if_neg hhash]
  rfl

end

end Ota
end GarageDoor
