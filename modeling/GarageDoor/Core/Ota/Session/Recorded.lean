/-
What an update session does to its parties.

Recording parties keep every call made to them.  The session's guarantees are
statements about the record it leaves with an arbitrary sink and source, and a
recorded session is the plain one with the records forgotten.
-/
import GarageDoor.Core.Ota.Session.Apply
import GarageDoor.Library.Trace

namespace GarageDoor
namespace Ota

open Library Flash

inductive FlashCall (ε : Type) where
  | write (offset : Nat) (data : List UInt8) (result : Except ε Unit)
  | markUpdated (result : Except ε Unit)

/-- A read of at most `requested` bytes and what it returned. -/
structure ReadCall (ε : Type) where
  requested : Nat
  result : Except ε Nat

variable {η φ ρ ε₁ ε₂ : Type}

def Flasher.recorded (F : Flasher φ ε₁) : Flasher (φ × List (FlashCall ε₁)) ε₁ where
  write s offset data :=
    let (result, f) := F.write s.1 offset data
    (result, (f, s.2 ++ [.write offset data result]))
  markUpdated s :=
    let (result, f) := F.markUpdated s.1
    (result, (f, s.2 ++ [.markUpdated result]))

def BodyReader.recorded (R : BodyReader ρ ε₂) : BodyReader (ρ × List (ReadCall ε₂)) ε₂ where
  read s slice :=
    let ((result, slice'), r) := R.read s.1 slice
    ((result, slice'), (r, s.2 ++ [⟨slice.length, result⟩]))
  read_length s slice := R.read_length s.1 slice

/-- The bytes of the successful writes, in order. -/
def image (calls : List (FlashCall ε₁)) : List UInt8 :=
  calls.flatMap fun
    | .write _ data (.ok ()) => data
    | _ => []

/-- Every write continues the image where the successful writes before it ended,
is not empty, fits a chunk and stays inside the declared length. -/
def InOrder (contentLength : Nat) : List (FlashCall ε₁) → Prop :=
  EachAfter fun pre call => ∀ offset data result, call = .write offset data result →
    offset = (image pre).length ∧ data ≠ [] ∧ data.length ≤ chunkBytes ∧
      offset + data.length ≤ contentLength

/-- No write failed. -/
def Accepting (calls : List (FlashCall ε₁)) : Prop :=
  ∀ offset data e, .write offset data (.error e) ∉ calls

@[simp] theorem image_append (a b : List (FlashCall ε₁)) : image (a ++ b) = image a ++ image b :=
  List.flatMap_append

@[simp] theorem image_nil : image ([] : List (FlashCall ε₁)) = [] := rfl

@[simp] theorem image_write_ok (offset : Nat) (data : List UInt8) :
    image [(.write offset data (.ok ()) : FlashCall ε₁)] = data := by
  simp [image]

@[simp] theorem image_write_error (offset : Nat) (data : List UInt8) (e : ε₁) :
    image [(.write offset data (.error e) : FlashCall ε₁)] = [] := by
  simp [image]

@[simp] theorem image_mark (result : Except ε₁ Unit) :
    image [(.markUpdated result : FlashCall ε₁)] = [] := by
  simp [image]

theorem InOrder.write {contentLength : Nat} {calls : List (FlashCall ε₁)} {offset : Nat}
    {data : List UInt8} (h : InOrder contentLength calls)
    (hoff : offset = (image calls).length) (hne : data ≠ []) (hchunk : data.length ≤ chunkBytes)
    (hend : offset + data.length ≤ contentLength) (result : Except ε₁ Unit) :
    InOrder contentLength (calls ++ [.write offset data result]) := by
  refine eachAfter_snoc.mpr ⟨h, ?_⟩
  rintro offset' data' result' ⟨⟩
  exact ⟨hoff, hne, hchunk, hend⟩

theorem InOrder.mark {contentLength : Nat} {calls : List (FlashCall ε₁)}
    (h : InOrder contentLength calls) (result : Except ε₁ Unit) :
    InOrder contentLength (calls ++ [.markUpdated result]) :=
  eachAfter_snoc.mpr ⟨h, by simp⟩

section

variable (sha : StreamingDigest η Digest) (F : Flasher φ ε₁) (R : BodyReader ρ ε₂)

/-! ## The loop invariant -/

abbrev Recorded (η φ ρ ε₁ ε₂ : Type) : Type :=
  Progress η (φ × List (FlashCall ε₁)) (ρ × List (ReadCall ε₂))

/-- The five pieces of state in step: what was read, counted, hashed, written and
offset is one and the same prefix of the image. -/
structure InStep (contentLength : Nat) (s : Recorded η φ ρ ε₁ ε₂) : Prop where
  buf : s.buf.length = chunkBytes
  offset : s.offset = s.total
  total : s.total ≤ contentLength
  length : (image s.flasher.2).length = s.total
  absorbed : sha.Absorbed s.hasher (image s.flasher.2)
  writes : InOrder contentLength s.flasher.2
  accepted : Accepting s.flasher.2
  unmarked : ∀ result, .markUpdated result ∉ s.flasher.2
  reads : s.body.2.length ≤ s.total

/-- What holds however the loop is left. -/
structure Settled (contentLength : Nat)
    (x : Exit η (φ × List (FlashCall ε₁)) (ρ × List (ReadCall ε₂)) ε₁ ε₂) : Prop where
  writes : InOrder contentLength x.1.flasher.2
  unmarked : ∀ result, .markUpdated result ∉ x.1.flasher.2
  reads : x.1.body.2.length ≤ contentLength
  complete : x.2 = none → (image x.1.flasher.2).length = x.1.total ∧
    sha.Absorbed x.1.hasher (image x.1.flasher.2) ∧ Accepting x.1.flasher.2

variable {sha F R}

/-- A recorded read adds one entry to the record of reads. -/
theorem recorded_read {s : ρ × List (ReadCall ε₂)} {slice : List UInt8}
    {x : Except ε₂ Nat × List UInt8} {body : ρ × List (ReadCall ε₂)}
    (h : R.recorded.read s slice = (x, body)) : body.2.length = s.2.length + 1 := by
  simp only [BodyReader.recorded, Prod.mk.injEq] at h
  rw [← h.2]
  simp

theorem recorded_write {s flasher : φ × List (FlashCall ε₁)} {offset : Nat} {data : List UInt8}
    {result : Except ε₁ Unit} (h : F.recorded.write s offset data = (result, flasher)) :
    flasher.2 = s.2 ++ [.write offset data result] := by
  simp only [Flasher.recorded, Prod.mk.injEq] at h
  rw [← h.2, h.1]

theorem recorded_mark {s flasher : φ × List (FlashCall ε₁)} {result : Except ε₁ Unit}
    (h : F.recorded.markUpdated s = (result, flasher)) :
    flasher.2 = s.2 ++ [.markUpdated result] := by
  simp only [Flasher.recorded, Prod.mk.injEq] at h
  rw [← h.2, h.1]

theorem inStep_init (contentLength : Nat) (f : φ) (r : ρ) :
    InStep sha contentLength (.start sha (f, []) (r, []) : Recorded η φ ρ ε₁ ε₂) :=
  { buf := List.length_replicate, offset := rfl, total := Nat.zero_le _, length := rfl,
    absorbed := StreamingDigest.absorbed_new, writes := eachAfter_nil _,
    accepted := by simp [Accepting, Progress.start]
    unmarked := by simp [Progress.start], reads := Nat.le_refl _ }

/-- The write of an iteration continues the image. -/
theorem InStep.inOrder_write {contentLength : Nat} {s : Recorded η φ ρ ε₁ ε₂}
    (h : InStep sha contentLength s) {data : List UInt8} (hne : data ≠ [])
    (hlen : data.length ≤ s.remaining contentLength) (result : Except ε₁ Unit) :
    InOrder contentLength (s.flasher.2 ++ [.write s.offset data result]) := by
  have hbuf := h.buf
  have htotal := h.total
  have hoff := h.offset
  simp only [Progress.remaining] at hlen
  exact h.writes.write (by rw [h.length, hoff]) hne (by omega) (by omega) result

theorem InStep.next {contentLength : Nat} {s s' : Recorded η φ ρ ε₁ ε₂}
    (h : InStep sha contentLength s)
    (hs : streamChunk sha F.recorded R.recorded contentLength s = .inl s') :
    InStep sha contentLength s' := by
  have hstep := streamChunk_step sha F.recorded R.recorded contentLength s
  rw [hs] at hstep
  cases hstep with
  | next hlt hread hdata hlen hpre hwrite =>
    have hcalls := recorded_write hwrite
    have hreads := recorded_read hread
    have hslice := R.recorded.read_length s.body (s.buf.take (s.remaining contentLength))
    rw [hread] at hslice
    have hbuf := h.buf
    have hpos := List.length_pos_iff.mpr hdata
    simp only [List.length_take, Progress.remaining] at hslice hlen
    constructor
    · simp only [Progress.absorb, Progress.refill, List.length_append, List.length_drop]
      omega
    · simp only [Progress.absorb, h.offset]
    · simp only [Progress.absorb]
      omega
    · simp [Progress.absorb, hcalls, h.length]
    · simp only [Progress.absorb, hcalls, image_append, image_write_ok]
      exact h.absorbed.update _
    · simp only [Progress.absorb, hcalls]
      exact h.inOrder_write hdata hlen _
    · intro offset data' e
      simp only [Progress.absorb, hcalls, List.mem_append, not_or]
      exact ⟨h.accepted offset data' e, by simp⟩
    · intro result
      simp only [Progress.absorb, hcalls, List.mem_append, not_or]
      exact ⟨h.unmarked result, by simp⟩
    · have := h.reads
      simp only [Progress.absorb, Progress.refill]
      omega

theorem InStep.exit {contentLength : Nat} {s : Recorded η φ ρ ε₁ ε₂}
    {x : Exit η (φ × List (FlashCall ε₁)) (ρ × List (ReadCall ε₂)) ε₁ ε₂}
    (h : InStep sha contentLength s)
    (hs : streamChunk sha F.recorded R.recorded contentLength s = .inr x) :
    Settled sha contentLength x := by
  have hreads := h.reads
  have hstep := streamChunk_step sha F.recorded R.recorded contentLength s
  rw [hs] at hstep
  cases hstep with
  | finished _ =>
    exact ⟨h.writes, h.unmarked, Nat.le_trans hreads h.total,
      fun _ => ⟨h.length, h.absorbed, h.accepted⟩⟩
  | readError hlt hread =>
    have := recorded_read hread
    exact ⟨h.writes, h.unmarked, by simp only [Progress.refill]; omega, by simp⟩
  | ended hlt hread =>
    have := recorded_read hread
    exact ⟨h.writes, h.unmarked, by simp only [Progress.refill]; omega,
      fun _ => ⟨h.length, h.absorbed, h.accepted⟩⟩
  | tooLong hlt hread _ =>
    have := recorded_read hread
    exact ⟨h.writes, h.unmarked, by simp only [Progress.refill]; omega, by simp⟩
  | flashError hlt hread hdata hlen hpre hwrite =>
    have := recorded_read hread
    have hcalls := recorded_write hwrite
    refine ⟨?_, ?_, by simp only [Progress.absorb, Progress.refill]; omega, by simp⟩
    · simp only [Progress.absorb, hcalls]
      exact h.inOrder_write hdata hlen _
    · intro result
      simp only [Progress.absorb, hcalls, List.mem_append, not_or]
      exact ⟨h.unmarked result, by simp⟩

theorem streamLoop_settled (sha : StreamingDigest η Digest) (F : Flasher φ ε₁)
    (R : BodyReader ρ ε₂) (contentLength : Nat) (f : φ) (r : ρ) :
    Settled sha contentLength ((streamLoop sha F.recorded R.recorded contentLength).run
      (.start sha (f, []) (r, []))) :=
  Loop.run_rule (I := InStep sha contentLength) (inStep_init contentLength f r)
    (fun h hs => h.next hs) (fun h hs => h.exit hs)

/-! ## The session -/

/-- Nothing is marked before the last call. -/
theorem marked_last {calls : List (FlashCall ε₁)} {result : Except ε₁ Unit}
    (h : ∀ result, .markUpdated result ∉ calls) {pre post : List (FlashCall ε₁)}
    {result' : Except ε₁ Unit}
    (heq : calls ++ [.markUpdated result] = pre ++ .markUpdated result' :: post) :
    pre = calls ∧ result' = result ∧ post = [] := by
  rcases List.eq_nil_or_concat post with rfl | ⟨post', last, rfl⟩
  · obtain ⟨hpre, hlast⟩ := List.append_inj' heq rfl
    rw [List.singleton_inj, FlashCall.markUpdated.injEq] at hlast
    exact ⟨hpre.symm, hlast.symm, rfl⟩
  · have heq' : calls ++ [.markUpdated result] =
        (pre ++ .markUpdated result' :: post') ++ [last] := by simpa using heq
    obtain ⟨hcalls, -⟩ := List.append_inj' heq' rfl
    exact absurd (by simp [hcalls]) (h result')

/-- Every way through a session, seen from its record. -/
inductive SessionEnd (sha : StreamingDigest η Digest) (contentLength : Nat) (expected : Digest)
    (calls : List (FlashCall ε₁)) : Except (UpdateError ε₁ ε₂) Unit → Prop where
  | unmarked {e} (hcalls : ∀ result, .markUpdated result ∉ calls) :
      SessionEnd sha contentLength expected calls (.error e)
  | refused {writes e} (hcalls : calls = writes ++ [.markUpdated (.error e)])
      (hwrites : ∀ result, .markUpdated result ∉ writes) (haccepted : Accepting writes)
      (hlength : (image writes).length = contentLength)
      (hhash : sha.hash (image writes) = expected) :
      SessionEnd sha contentLength expected calls (.error (.flash e))
  | committed {writes} (hcalls : calls = writes ++ [.markUpdated (.ok ())])
      (hwrites : ∀ result, .markUpdated result ∉ writes) (haccepted : Accepting writes)
      (hlength : (image writes).length = contentLength)
      (hhash : sha.hash (image writes) = expected) :
      SessionEnd sha contentLength expected calls (.ok ())

/-- What a session leaves behind. -/
structure Session (sha : StreamingDigest η Digest) (contentLength : Nat) (expected : Digest)
    (out : Except (UpdateError ε₁ ε₂) Unit × (φ × List (FlashCall ε₁)) ×
      (ρ × List (ReadCall ε₂))) : Prop where
  writes : InOrder contentLength out.2.1.2
  reads : out.2.2.2.length ≤ contentLength
  ending : SessionEnd sha contentLength expected out.2.1.2 out.1

theorem applyUpdate_session (sha : StreamingDigest η Digest) (F : Flasher φ ε₁)
    (R : BodyReader ρ ε₂) (f : φ) (r : ρ) (contentLength : Nat) (expected : Digest) :
    Session sha contentLength expected
      (applyUpdate sha F.recorded R.recorded (f, []) (r, []) contentLength expected) := by
  unfold applyUpdate
  by_cases hsize : activeBytes < contentLength
  · rw [if_pos hsize]
    exact ⟨eachAfter_nil _, Nat.zero_le _, .unmarked (by simp)⟩
  · rw [if_neg hsize]
    have hloop := streamLoop_settled sha F R contentLength f r
    generalize (streamLoop sha F.recorded R.recorded contentLength).run _ = x at hloop
    obtain ⟨s, ending⟩ := x
    cases ending with
    | some e => exact ⟨hloop.writes, hloop.reads, .unmarked hloop.unmarked⟩
    | none =>
      obtain ⟨hlength, habsorbed, haccepted⟩ := hloop.complete rfl
      simp only [conclude]
      by_cases htotal : s.total ≠ contentLength
      · rw [if_pos htotal]
        exact ⟨hloop.writes, hloop.reads, .unmarked hloop.unmarked⟩
      by_cases hhash : sha.finalize s.hasher ≠ expected
      · rw [if_neg htotal, if_pos hhash]
        exact ⟨hloop.writes, hloop.reads, .unmarked hloop.unmarked⟩
      rw [if_neg htotal, if_neg hhash]
      rcases hmark : F.recorded.markUpdated s.flasher with ⟨result, flasher⟩
      have hcalls := recorded_mark hmark
      rw [not_not] at htotal hhash
      rw [habsorbed.finalize] at hhash
      rw [htotal] at hlength
      have hwrites : InOrder contentLength flasher.2 := by
        rw [hcalls]
        exact hloop.writes.mark result
      cases result with
      | error e =>
        exact ⟨hwrites, hloop.reads,
          .refused hcalls hloop.unmarked haccepted hlength hhash⟩
      | ok u =>
        exact ⟨hwrites, hloop.reads,
          .committed hcalls hloop.unmarked haccepted hlength hhash⟩

/-- An image is marked only once all of it is written and its digest is the expected
one, and then nothing is done to the sink any more. -/
theorem SessionEnd.of_mark {contentLength : Nat} {expected : Digest}
    {calls : List (FlashCall ε₁)} {out : Except (UpdateError ε₁ ε₂) Unit}
    (h : SessionEnd sha contentLength expected calls out) {pre post : List (FlashCall ε₁)}
    {result : Except ε₁ Unit} (heq : calls = pre ++ .markUpdated result :: post) :
    post = [] ∧ (∀ result', .markUpdated result' ∉ pre) ∧
      (image pre).length = contentLength ∧ sha.hash (image pre) = expected := by
  cases h with
  | unmarked hcalls => exact absurd (by simp [heq]) (hcalls result)
  | refused hcalls hwrites _ hlength hhash | committed hcalls hwrites _ hlength hhash =>
    obtain ⟨rfl, -, rfl⟩ := marked_last hwrites (hcalls.symm.trans heq)
    exact ⟨rfl, hwrites, hlength, hhash⟩

theorem SessionEnd.ok_iff {contentLength : Nat} {expected : Digest}
    {calls : List (FlashCall ε₁)} {out : Except (UpdateError ε₁ ε₂) Unit}
    (h : SessionEnd sha contentLength expected calls out) :
    out = .ok () ↔ .markUpdated (.ok ()) ∈ calls := by
  cases h with
  | unmarked hcalls => simp [hcalls]
  | refused hcalls hwrites _ _ _ => simp [hcalls, hwrites]
  | committed hcalls _ _ _ _ => simp [hcalls]

/-- An error other than that of the commit itself leaves the image unmarked. -/
theorem SessionEnd.of_error {contentLength : Nat} {expected : Digest}
    {calls : List (FlashCall ε₁)} {e : UpdateError ε₁ ε₂}
    (h : SessionEnd sha contentLength expected calls (.error e)) :
    (∀ result, .markUpdated result ∉ calls) ∨
      ∃ writes e', e = .flash e' ∧ calls = writes ++ [.markUpdated (.error e')] := by
  cases h with
  | unmarked hcalls => exact .inl hcalls
  | refused hcalls _ _ _ _ => exact .inr ⟨_, _, rfl, hcalls⟩

/-- A session never commits an image it has not verified. -/
theorem applyUpdate_verified (sha : StreamingDigest η Digest) (F : Flasher φ ε₁)
    (R : BodyReader ρ ε₂) (f : φ) (r : ρ) (contentLength : Nat) (expected : Digest) :
    let out := applyUpdate sha F.recorded R.recorded (f, []) (r, []) contentLength expected
    let calls := out.2.1.2
    let reads := out.2.2.2
    (activeBytes < contentLength → calls = [] ∧ reads = []) ∧
    InOrder contentLength calls ∧
    (∀ pre result post, calls = pre ++ .markUpdated result :: post →
      post = [] ∧ (∀ result', .markUpdated result' ∉ pre) ∧
        (image pre).length = contentLength ∧ sha.hash (image pre) = expected) ∧
    (out.1 = .ok () ↔ .markUpdated (.ok ()) ∈ calls) ∧
    (∀ e, out.1 = .error e → (∀ result, .markUpdated result ∉ calls) ∨
      ∃ writes e', e = .flash e' ∧ calls = writes ++ [.markUpdated (.error e')]) ∧
    reads.length ≤ contentLength := by
  have h := applyUpdate_session sha F R f r contentLength expected
  refine ⟨?_, h.writes, fun _ _ _ => h.ending.of_mark, h.ending.ok_iff, ?_, h.reads⟩
  · intro hsize
    simp only [applyUpdate, if_pos hsize, and_self]
  · intro e he
    have hend := h.ending
    rw [he] at hend
    exact hend.of_error

/-! ## The record does not disturb the session -/

end

/-- A sink whose calls do what those of `F` do, on a state that keeps more. -/
structure Flasher.Over {φ' : Type} (F' : Flasher φ' ε₁) (F : Flasher φ ε₁) where
  forget : φ' → φ
  write : ∀ s offset data,
    F.write (forget s) offset data = Prod.map id forget (F'.write s offset data)
  markUpdated : ∀ s, F.markUpdated (forget s) = Prod.map id forget (F'.markUpdated s)

/-- A source whose reads do what those of `R` do, on a state that keeps more. -/
structure BodyReader.Over {ρ' : Type} (R' : BodyReader ρ' ε₂) (R : BodyReader ρ ε₂) where
  forget : ρ' → ρ
  read : ∀ s slice, R.read (forget s) slice = Prod.map id forget (R'.read s slice)

def Flasher.Over.refl (F : Flasher φ ε₁) : F.Over F where
  forget := id
  write _ _ _ := rfl
  markUpdated _ := rfl

def Flasher.Over.recorded (F : Flasher φ ε₁) : F.recorded.Over F where
  forget := Prod.fst
  write _ _ _ := rfl
  markUpdated _ := rfl

def BodyReader.Over.refl (R : BodyReader ρ ε₂) : R.Over R where
  forget := id
  read _ _ := rfl

def BodyReader.Over.recorded (R : BodyReader ρ ε₂) : R.recorded.Over R where
  forget := Prod.fst
  read _ _ := rfl

section

variable {φ' ρ' : Type} (sha : StreamingDigest η Digest) {F' : Flasher φ' ε₁} {F : Flasher φ ε₁}
  {R' : BodyReader ρ' ε₂} {R : BodyReader ρ ε₂} (V : F'.Over F) (W : R'.Over R)

def Progress.forget (V : F'.Over F) (W : R'.Over R) (s : Progress η φ' ρ') : Progress η φ ρ :=
  { s with flasher := V.forget s.flasher, body := W.forget s.body }

theorem streamChunk_forget (contentLength : Nat) (s : Progress η φ' ρ') :
    streamChunk sha F R contentLength (s.forget V W) =
      (streamChunk sha F' R' contentLength s).map (Progress.forget V W)
        (Prod.map (Progress.forget V W) id) := by
  by_cases hlt : s.total < contentLength
  · have hlt' : (s.forget V W).total < contentLength := hlt
    rcases hr : R'.read s.body (s.buf.take (s.remaining contentLength)) with
      ⟨⟨result, slice⟩, body⟩
    have hr' : R.read (s.forget V W).body
        ((s.forget V W).buf.take ((s.forget V W).remaining contentLength)) =
          ((result, slice), W.forget body) :=
      (W.read s.body _).trans (congrArg (Prod.map id W.forget) hr)
    cases result with
    | error e =>
      simp only [streamChunk, if_pos hlt, if_pos hlt', hr, hr']
      rfl
    | ok n =>
      simp only [streamChunk, if_pos hlt, if_pos hlt', hr, hr']
      by_cases hn : n = 0
      · rw [if_pos hn, if_pos hn]
        rfl
      rw [if_neg hn, if_neg hn]
      by_cases hlong : s.remaining contentLength < n
      · rw [if_pos hlong, if_pos (show (s.forget V W).remaining contentLength < n from hlong)]
        rfl
      rw [if_neg hlong, if_neg (show ¬ (s.forget V W).remaining contentLength < n from hlong)]
      rcases hw : F'.write s.flasher s.offset ((slice ++ s.buf.drop slice.length).take n) with
        ⟨written, flasher⟩
      have hw' := (V.write s.flasher s.offset _).trans (congrArg (Prod.map id V.forget) hw)
      simp only [Progress.refill, Progress.forget, hw, hw', Prod.map_apply, id]
      cases written <;> rfl
  · rw [streamChunk, streamChunk, if_neg hlt,
      if_neg (show ¬ (s.forget V W).total < contentLength from hlt)]
    rfl

theorem streamLoop_forget (contentLength : Nat) (s : Progress η φ' ρ') :
    (streamLoop sha F R contentLength).run (s.forget V W) =
      Prod.map (Progress.forget V W) id ((streamLoop sha F' R' contentLength).run s) := by
  refine Loop.run_related (R := fun t s => t = Progress.forget V W s)
    (Q := fun x y => x = Prod.map (Progress.forget V W) id y) rfl ?_
  intro t s hts
  have hstep := streamChunk_forget sha V W contentLength s
  subst hts
  cases hs : streamChunk sha F' R' contentLength s with
  | inl s' =>
    rw [hs] at hstep
    exact .inl ⟨s'.forget V W, s', hstep, hs, rfl⟩
  | inr x =>
    rw [hs] at hstep
    exact .inr ⟨_, x, hstep, hs, rfl⟩

/-- What the parties keep beside their own state does not show in a session. -/
theorem applyUpdate_forget (f : φ') (r : ρ') (contentLength : Nat) (expected : Digest) :
    applyUpdate sha F R (V.forget f) (W.forget r) contentLength expected =
      (applyUpdate sha F' R' f r contentLength expected).map id
        (Prod.map V.forget W.forget) := by
  unfold applyUpdate
  by_cases hsize : activeBytes < contentLength
  · rw [if_pos hsize, if_pos hsize]
    rfl
  · rw [if_neg hsize, if_neg hsize]
    have hloop := streamLoop_forget sha V W contentLength (.start sha f r)
    rw [show Progress.start sha (V.forget f) (W.forget r) =
      (Progress.start sha f r).forget V W from rfl, hloop]
    generalize (streamLoop sha F' R' contentLength).run _ = x
    obtain ⟨s, ending⟩ := x
    cases ending with
    | some e => rfl
    | none =>
      rcases hmark : F'.markUpdated s.flasher with ⟨result, flasher⟩
      have hmark' := (V.markUpdated s.flasher).trans (congrArg (Prod.map id V.forget) hmark)
      simp only [conclude, Progress.forget, Prod.map_apply, id, hmark, hmark']
      by_cases htotal : s.total ≠ contentLength
      · rw [if_pos htotal, if_pos htotal]
        rfl
      by_cases hhash : sha.finalize s.hasher ≠ expected
      · rw [if_neg htotal, if_neg htotal, if_pos hhash, if_pos hhash]
        rfl
      rw [if_neg htotal, if_neg htotal, if_neg hhash, if_neg hhash]
      cases result <;> rfl

end

variable (sha : StreamingDigest η Digest) (F : Flasher φ ε₁) (R : BodyReader ρ ε₂)

/-- Forgetting the records of a session leaves the plain session. -/
theorem applyUpdate_erase (f : φ × List (FlashCall ε₁)) (r : ρ × List (ReadCall ε₂))
    (contentLength : Nat) (expected : Digest) :
    applyUpdate sha F R f.1 r.1 contentLength expected =
      (applyUpdate sha F.recorded R.recorded f r contentLength expected).map id
        (Prod.map Prod.fst Prod.fst) :=
  applyUpdate_forget sha (.recorded F) (.recorded R) f r contentLength expected

/-- A session over any source writes in order and ends as its record says. -/
theorem applyUpdate_ends (f : φ) (r : ρ) (contentLength : Nat) (expected : Digest) :
    let out := applyUpdate sha F.recorded R (f, []) r contentLength expected
    InOrder contentLength out.2.1.2 ∧ SessionEnd sha contentLength expected out.2.1.2 out.1 := by
  have hsession := applyUpdate_session sha F R f r contentLength expected
  have hforget := applyUpdate_forget sha (.refl F.recorded) (.recorded R) (f, []) (r, [])
    contentLength expected
  simp only [Flasher.Over.refl, BodyReader.Over.recorded, id] at hforget
  rw [hforget]
  exact ⟨hsession.writes, hsession.ending⟩

end Ota
end GarageDoor
