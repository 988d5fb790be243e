/-
An update session over a source that delivers a fixed stream.

Whatever the sizes of the pieces, and as long as the sink takes them, the session
does what the stream alone determines.  What the sink makes of the pieces is a
predicate on the bytes written so far, which each write extends.
-/
import GarageDoor.Core.Ota.Session.Apply

namespace GarageDoor
namespace Ota

open Library Flash

/-- A read at the end of a stream: the plain end, or an error. -/
def endResult {ε : Type} : Option ε → Except ε Nat
  | none => .ok 0
  | some e => .error e

/-- The reader hands out `stream` in order and then ends as `ending` says.  `At k`
says that it has handed out `k` bytes; it is only asked while fewer than
`contentLength` have been. -/
structure Delivery {ρ ε : Type} (R : BodyReader ρ ε) (contentLength : Nat)
    (stream : List UInt8) (ending : Option ε) where
  At : Nat → ρ → Prop
  more : ∀ {k r slice}, At k r → k < contentLength → slice ≠ [] → k < stream.length →
    ∃ data r', R.read r slice =
        ((.ok data.length, data ++ slice.drop data.length), r') ∧
      data ≠ [] ∧ data.length ≤ slice.length ∧ data <+: stream.drop k ∧ At (k + data.length) r'
  ended : ∀ {k r slice}, At k r → k < contentLength → slice ≠ [] → stream.length ≤ k →
    ∃ r', R.read r slice = ((endResult ending, slice), r') ∧ At k r'

/-- What is known of a sink to which the image `done` was written from its start. -/
structure Sink {φ ε : Type} (F : Flasher φ ε) where
  Holds : List UInt8 → φ → Prop
  written : ∀ {done f data f'}, Holds done f →
    F.write f done.length data = (.ok (), f') → Holds (done ++ data) f'
  failed : ∀ {done f data e f'}, Holds done f →
    F.write f done.length data = (.error e, f') → Holds done f'
  marked : ∀ {done f result f'}, Holds done f →
    F.markUpdated f = (result, f') → Holds done f'

section

variable {η φ ρ ε₁ ε₂ : Type} {sha : StreamingDigest η Digest} {F : Flasher φ ε₁}
  {R : BodyReader ρ ε₂} {contentLength : Nat} {stream : List UInt8} {ending : Option ε₂}

/-- What was handed out is also what was counted, hashed and written. -/
structure Streamed (sha : StreamingDigest η Digest) (K : Sink F)
    (D : Delivery R contentLength stream ending) (s : Progress η φ ρ) : Prop where
  buf : s.buf.length = chunkBytes
  total : s.total ≤ contentLength
  available : s.total ≤ stream.length
  offset : s.offset = s.total
  body : D.At s.total s.body
  absorbed : sha.Absorbed s.hasher (stream.take s.total)
  sink : K.Holds (stream.take s.total) s.flasher

/-- The loop was left with everything, or at the end of the stream. -/
structure Drained (sha : StreamingDigest η Digest) (K : Sink F)
    (D : Delivery R contentLength stream ending) (x : Exit η φ ρ ε₁ ε₂) : Prop where
  total : x.1.total = min contentLength stream.length
  body : D.At x.1.total x.1.body
  absorbed : sha.Absorbed x.1.hasher (stream.take contentLength)
  sink : K.Holds (stream.take contentLength) x.1.flasher
  result : x.2 = if contentLength ≤ stream.length then none else ending.map .read

/-- The loop was left because the sink failed. -/
structure Broken (K : Sink F) (D : Delivery R contentLength stream ending)
    (x : Exit η φ ρ ε₁ ε₂) : Prop where
  body : D.At x.1.total x.1.body
  sink : ∃ k, K.Holds (stream.take k) x.1.flasher
  result : ∃ e, x.2 = some (.flash e)

theorem take_add_of_prefix {n : Nat} {data : List UInt8} (h : data <+: stream.drop n) :
    stream.take (n + data.length) = stream.take n ++ data := by
  rw [List.take_add, ← List.prefix_iff_eq_take.mp h]

theorem Streamed.slice_ne_nil {K : Sink F} {D : Delivery R contentLength stream ending}
    {s : Progress η φ ρ} (h : Streamed sha K D s) (hlt : s.total < contentLength) :
    s.buf.take (s.remaining contentLength) ≠ [] := by
  have hbuf := h.buf
  have hpos : 0 < chunkBytes := by decide
  rw [← List.length_pos_iff, List.length_take, Progress.remaining]
  omega

theorem Streamed.drained {K : Sink F} {D : Delivery R contentLength stream ending}
    {s : Progress η φ ρ} (h : Streamed sha K D s)
    (hlast : s.total = min contentLength stream.length) {result : Option (UpdateError ε₁ ε₂)}
    (hresult : result = if contentLength ≤ stream.length then none else ending.map .read) :
    Drained sha K D (s, result) := by
  have htake : stream.take s.total = stream.take contentLength := by
    rw [hlast, ← List.take_eq_take_min]
  exact
    { total := hlast, body := h.body, absorbed := htake ▸ h.absorbed
      sink := htake ▸ h.sink, result := hresult }

/-- An iteration that is handed a piece writes it, or finds the sink failing. -/
theorem Streamed.piece {K : Sink F} {D : Delivery R contentLength stream ending}
    {s : Progress η φ ρ} (h : Streamed sha K D s) (hlt : s.total < contentLength)
    (hmore : s.total < stream.length) :
    (∃ s', streamChunk sha F R contentLength s = .inl s' ∧ Streamed sha K D s') ∨
    (∃ x, streamChunk sha F R contentLength s = .inr x ∧ Broken K D x) := by
  have hstep := streamChunk_step sha F R contentLength s
  have hbuf := h.buf
  generalize streamChunk sha F R contentLength s = y at hstep ⊢
  obtain ⟨data, body, hread, hne, hlen, hpre, hat⟩ :=
    D.more h.body hlt (h.slice_ne_nil hlt) hmore
  rw [List.length_take] at hlen
  have hstream := hpre.length_le
  rw [List.length_drop] at hstream
  have hdone : (stream.take s.total).length = s.offset := by
    rw [List.length_take, h.offset]
    omega
  -- The data written is the piece: both are prefixes of the slice, of one length.
  have hpiece : ∀ {slice data'},
      R.read s.body (s.buf.take (s.remaining contentLength)) =
        ((.ok (List.length data'), slice), body) → data' <+: slice → data' = data := by
    intro slice data' hr hpre'
    simp only [hread, Prod.mk.injEq, Except.ok.injEq] at hr
    obtain ⟨⟨hlength, rfl⟩, -⟩ := hr
    have := List.prefix_append data ((s.buf.take (s.remaining contentLength)).drop data.length)
    exact (List.prefix_of_prefix_length_le hpre' this (by omega)).eq_of_length hlength.symm
  cases hstep with
  | finished hge => omega
  | readError _ hr => simp [hread] at hr
  | ended _ hr => simp [hread, hne] at hr
  | tooLong _ hr hn =>
    simp only [hread, Prod.mk.injEq, Except.ok.injEq] at hr
    omega
  | flashError _ hr _ _ hpre' hw =>
    obtain rfl : body = _ := congrArg Prod.snd (hread.symm.trans hr)
    obtain rfl := hpiece hr hpre'
    rw [← hdone] at hw
    exact .inr ⟨_, rfl, hat, ⟨s.total, K.failed h.sink hw⟩, _, rfl⟩
  | next _ hr _ _ hpre' hw =>
    obtain rfl : body = _ := congrArg Prod.snd (hread.symm.trans hr)
    obtain rfl := hpiece hr hpre'
    have hslice := R.read_length s.body (s.buf.take (s.remaining contentLength))
    rw [hr, List.length_take] at hslice
    rw [← hdone] at hw
    have htake := take_add_of_prefix hpre
    simp only [Progress.remaining] at hlen hslice
    refine .inl ⟨_, rfl, ?_⟩
    constructor
    · simp only [Progress.absorb, Progress.refill, List.length_append, List.length_drop]
      omega
    · simp only [Progress.absorb]
      omega
    · simp only [Progress.absorb]
      omega
    · simp only [Progress.absorb, h.offset]
    · exact hat
    · simp only [Progress.absorb, htake]
      exact h.absorbed.update _
    · simp only [Progress.absorb, htake]
      exact K.written h.sink hw

/-- An iteration at the end of the stream leaves the loop. -/
theorem Streamed.end {K : Sink F} {D : Delivery R contentLength stream ending}
    {s : Progress η φ ρ} (h : Streamed sha K D s) (hlt : s.total < contentLength)
    (hend : stream.length ≤ s.total) :
    ∃ x, streamChunk sha F R contentLength s = .inr x ∧ Drained sha K D x := by
  have hbuf := h.buf
  have havail := h.available
  have hresult : ¬ contentLength ≤ stream.length := by omega
  obtain ⟨body, hread, hat⟩ := D.ended h.body hlt (h.slice_ne_nil hlt) hend
  have hs : Streamed sha K D (s.refill (s.buf.take (s.remaining contentLength)) body) := by
    refine ⟨?_, h.total, havail, h.offset, hat, h.absorbed, h.sink⟩
    simp only [Progress.refill, List.length_append, List.length_take, List.length_drop]
    omega
  cases ending with
  | none =>
    refine ⟨_, ?_, hs.drained (by simp only [Progress.refill]; omega) rfl⟩
    simp only [streamChunk, if_pos hlt, hread, endResult, if_true, if_neg hresult, Option.map_none]
  | some e =>
    refine ⟨_, ?_, hs.drained (by simp only [Progress.refill]; omega) rfl⟩
    simp only [streamChunk, if_pos hlt, hread, endResult, if_neg hresult, Option.map_some]

/-- One iteration takes the next piece of the stream or leaves the loop. -/
theorem Streamed.chunk {K : Sink F} {D : Delivery R contentLength stream ending}
    {s : Progress η φ ρ} (h : Streamed sha K D s) :
    (∃ s', streamChunk sha F R contentLength s = .inl s' ∧ Streamed sha K D s') ∨
    (∃ x, streamChunk sha F R contentLength s = .inr x ∧ (Broken K D x ∨ Drained sha K D x)) := by
  have htotal := h.total
  have havail := h.available
  by_cases hlt : s.total < contentLength
  · by_cases hmore : s.total < stream.length
    · rcases h.piece hlt hmore with hnext | ⟨x, hx, hbroken⟩
      · exact .inl hnext
      · exact .inr ⟨x, hx, .inl hbroken⟩
    · obtain ⟨x, hx, hdrained⟩ := h.end hlt (Nat.not_lt.mp hmore)
      exact .inr ⟨x, hx, .inr hdrained⟩
  · refine .inr ⟨(s, none), if_neg hlt, .inr (h.drained (by omega) ?_)⟩
    rw [if_pos (by omega)]

theorem streamLoop_drained (sha : StreamingDigest η Digest) (K : Sink F)
    (D : Delivery R contentLength stream ending) {flasher : φ} {body : ρ}
    (hsink : K.Holds [] flasher) (hbody : D.At 0 body) :
    let x := (streamLoop sha F R contentLength).run (.start sha flasher body)
    Broken K D x ∨ Drained sha K D x := by
  refine Loop.run_step_rule (I := Streamed sha K D)
    (Q := fun x => Broken K D x ∨ Drained sha K D x) ?_ fun hs => hs.chunk
  exact
    { buf := List.length_replicate, total := Nat.zero_le _, available := Nat.zero_le _
      offset := rfl, body := hbody, absorbed := StreamingDigest.absorbed_new, sink := hsink }

/-- What a session makes of a stream, unless the sink fails. -/
def streamResult (sha : StreamingDigest η Digest) (contentLength : Nat) (expected : Digest)
    (stream : List UInt8) (ending : Option ε₂) : Except (UpdateError ε₁ ε₂) Unit :=
  if activeBytes < contentLength then .error (.oversize contentLength activeBytes)
  else if contentLength ≤ stream.length then
    if sha.hash (stream.take contentLength) = expected then .ok () else .error .hashMismatch
  else
    match ending with
    | none => .error .tooShort
    | some e => .error (.read e)

/-- The image a session writes of a stream, unless the sink fails. -/
def streamImage (contentLength : Nat) (stream : List UInt8) : List UInt8 :=
  if activeBytes < contentLength then [] else stream.take contentLength

/-- A session does what the stream determines, whatever the pieces it comes in, or
fails with the sink. -/
theorem applyUpdate_of_delivery (sha : StreamingDigest η Digest) (K : Sink F)
    (D : Delivery R contentLength stream ending) {flasher : φ} {body : ρ}
    (hsink : K.Holds [] flasher) (hbody : D.At 0 body) (expected : Digest) :
    let out := applyUpdate sha F R flasher body contentLength expected
    (∃ k, D.At k out.2.2) ∧
    ((∃ e k, out.1 = .error (.flash e) ∧ K.Holds (stream.take k) out.2.1) ∨
      out.1 = streamResult sha contentLength expected stream ending ∧
        K.Holds (streamImage contentLength stream) out.2.1) := by
  unfold applyUpdate streamResult streamImage
  by_cases hsize : activeBytes < contentLength
  · simp only [if_pos hsize]
    exact ⟨⟨0, hbody⟩, .inr ⟨trivial, hsink⟩⟩
  · simp only [if_neg hsize]
    have hloop := streamLoop_drained sha K D hsink hbody
    generalize (streamLoop sha F R contentLength).run _ = x at hloop
    obtain ⟨s, result⟩ := x
    rcases hloop with ⟨hat, ⟨k, hk⟩, e, hresult⟩ | hdrained
    · obtain rfl : result = _ := hresult
      exact ⟨⟨_, hat⟩, .inl ⟨e, k, rfl, hk⟩⟩
    have hresult : result = _ := hdrained.result
    have htotal : s.total = min contentLength stream.length := hdrained.total
    have hheld : K.Holds (stream.take contentLength) s.flasher := hdrained.sink
    by_cases hlong : contentLength ≤ stream.length
    · rw [if_pos hlong] at hresult ⊢
      subst hresult
      have hall : ¬ s.total ≠ contentLength := by omega
      simp only [conclude, if_neg hall, hdrained.absorbed.finalize]
      by_cases hhash : sha.hash (stream.take contentLength) = expected
      · rcases hmark : F.markUpdated s.flasher with ⟨marked, flasher'⟩
        rw [if_neg (not_not.mpr hhash), if_pos hhash]
        cases marked with
        | error e =>
          exact ⟨⟨_, hdrained.body⟩, .inl ⟨e, contentLength, rfl, K.marked hheld hmark⟩⟩
        | ok u => exact ⟨⟨_, hdrained.body⟩, .inr ⟨rfl, K.marked hheld hmark⟩⟩
      · rw [if_pos hhash, if_neg hhash]
        exact ⟨⟨_, hdrained.body⟩, .inr ⟨rfl, hheld⟩⟩
    · rw [if_neg hlong] at hresult ⊢
      cases ending with
      | none =>
        subst hresult
        have hshort : s.total ≠ contentLength := by omega
        simp only [Option.map_none, conclude, if_pos hshort]
        exact ⟨⟨_, hdrained.body⟩, .inr ⟨trivial, hheld⟩⟩
      | some e =>
        subst hresult
        exact ⟨⟨_, hdrained.body⟩, .inr ⟨rfl, hheld⟩⟩

theorem streamResult_eq_ok {expected : Digest} (h : contentLength ≤ activeBytes) :
    (streamResult sha contentLength expected stream ending : Except (UpdateError ε₁ ε₂) Unit) =
        .ok () ↔
      contentLength ≤ stream.length ∧ sha.hash (stream.take contentLength) = expected := by
  unfold streamResult
  rw [if_neg (Nat.not_lt.mpr h)]
  by_cases hlong : contentLength ≤ stream.length
  · rw [if_pos hlong]
    by_cases hhash : sha.hash (stream.take contentLength) = expected
    · simp [hhash, hlong]
    · simp [hhash]
  · rw [if_neg hlong]
    cases ending <;> simp [hlong]

/-- A stream that is long enough decides the session, not what comes after. -/
theorem streamResult_congr (sha : StreamingDigest η Digest) (expected : Digest)
    {stream' : List UInt8} (ending ending' : Option ε₂) (hlong : contentLength ≤ stream.length)
    (h : stream'.take contentLength = stream.take contentLength) :
    (streamResult sha contentLength expected stream ending : Except (UpdateError ε₁ ε₂) Unit) =
      streamResult sha contentLength expected stream' ending' := by
  have hlong' : contentLength ≤ stream'.length := by
    have := congrArg List.length h
    rw [List.length_take, List.length_take] at this
    omega
  unfold streamResult
  rw [if_pos hlong, if_pos hlong', h]

end

/-! ## A sink that stores -/

/-- `data` laid over `cells` from `offset` on. -/
def overlay (cells : Nat → Option UInt8) (offset : Nat) (data : List UInt8) :
    Nat → Option UInt8 :=
  fun a => if a < offset then cells a else (data[a - offset]?).or (cells a)

/-- A sink that stores what it is given and never fails. -/
def storing : Flasher (Nat → Option UInt8) Empty where
  write cells offset data := (.ok (), overlay cells offset data)
  markUpdated cells := (.ok (), cells)

theorem overlay_zero (cells : Nat → Option UInt8) (data : List UInt8) (a : Nat) :
    overlay cells 0 data a = (data[a]?).or (cells a) := by
  simp [overlay]

@[simp] theorem overlay_nil (cells : Nat → Option UInt8) (offset : Nat) :
    overlay cells offset [] = cells := by
  funext a
  simp [overlay]

/-- Two writes of which the second starts where the first ended are one. -/
theorem overlay_append (cells : Nat → Option UInt8) (done data : List UInt8) :
    overlay (overlay cells 0 done) done.length data = overlay cells 0 (done ++ data) := by
  funext a
  rw [overlay, overlay_zero, overlay_zero]
  by_cases ha : a < done.length
  · rw [if_pos ha, List.getElem?_append_left ha]
  · rw [if_neg ha, List.getElem?_append_right (Nat.not_lt.mp ha),
      List.getElem?_eq_none (Nat.not_lt.mp ha), Option.none_or]

def storingSink (cells : Nat → Option UInt8) : Sink storing where
  Holds done cells' := cells' = overlay cells 0 done
  written := by
    rintro done _ data _ rfl ⟨⟩
    exact overlay_append cells done data
  failed := by
    intro _ _ _ e
    exact e.elim
  marked := by
    rintro _ _ _ _ rfl ⟨⟩
    rfl

end Ota
end GarageDoor
