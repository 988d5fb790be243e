/-
What one response makes of a connection.

The peer's whole stream decides what `get`, `read_small` and the body source hand
out; the sizes of the pieces it comes in do not show.
-/
import GarageDoor.App.Ota.Transport
import GarageDoor.Core.Ota.Http.Reference
import GarageDoor.Core.Ota.Session.Stream

namespace GarageDoor
namespace Ota

open Library

/-! ## Scanning in pieces -/

theorem scan_append (p : HeadParser) (data rest : List UInt8) :
    scan p (data ++ rest) =
      match scan p data with
      | .more p' => scan p' rest
      | .complete head extra => .complete head (extra ++ rest)
      | .reject error => .reject error := by
  induction data generalizing p with
  | nil => rfl
  | cons b data ih =>
    rw [List.cons_append, scan, scan]
    rcases p.push b with ⟨event, p'⟩
    cases event with
    | needMore => exact ih p'
    | complete head => rfl
    | reject error => rfl

/-- What follows a head is a proper suffix of what was scanned. -/
theorem split_of_scan {p : HeadParser} {data extra : List UInt8} {head : ResponseHead}
    (h : scan p data = .complete head extra) : ∃ used, used ≠ [] ∧ data = used ++ extra := by
  induction data generalizing p with
  | nil => cases h
  | cons b data ih =>
    rw [scan] at h
    rcases hpush : p.push b with ⟨event, p'⟩
    rw [hpush] at h
    cases event with
    | needMore =>
      obtain ⟨used, -, rfl⟩ := ih h
      exact ⟨b :: used, by simp, rfl⟩
    | complete head' =>
      cases h
      exact ⟨[b], by simp, rfl⟩
    | reject error => cases h

theorem scan_of_silent {s : List UInt8} (h : Silent s) :
    scan HeadParser.new s = .more (HeadParser.new.feed s) := by
  induction s using List.reverseRecOn with
  | nil => rfl
  | append_singleton s b ih =>
    obtain ⟨hs, hb⟩ := eachAfter_snoc.mp h
    rw [scan_append, ih hs, HeadParser.feed_append]
    rcases hpush : (HeadParser.new.feed s).push b with ⟨event, p'⟩
    rw [hpush] at hb
    subst hb
    simp only [scan, HeadParser.feed_cons, HeadParser.feed_nil, hpush]

/-- A scan stops where the parser first completes. -/
theorem scan_of_firstEvent {s : List UInt8} {n : Nat} {head : ResponseHead}
    (h : FirstEvent s n (.complete head)) :
    scan HeadParser.new s = .complete head (s.drop n) := by
  obtain ⟨pre, b, post, rfl, rfl, hsilent, hevent, -⟩ := h
  rcases hpush : (HeadParser.new.feed pre).push b with ⟨event, p'⟩
  rw [hpush] at hevent
  subst hevent
  rw [scan_append, scan_of_silent hsilent]
  simp only [scan, hpush, Scan.complete.injEq, true_and]
  rw [List.append_cons]
  exact (List.drop_left' (by simp)).symm

/-! ## The head -/

/-- The failure of `get` at the end of the stream. -/
def Ending.headError : Ending → FetchError
  | .closed => .closed
  | .timedOut => .timeout
  | .failed => .read

/-- The failure of a body read at the end of the stream, unless it is a plain end. -/
def Ending.bodyError : Ending → Option FetchError
  | .closed => none
  | .timedOut => some .timeout
  | .failed => some .read

/-- A connection that has delivered all of the stream but what is pending, with every
read issued while fewer than `bound` bytes had been received. -/
structure Open (peer : Peer) (bound : Nat) (t : Transport) : Prop where
  received : t.received + t.pending.length = peer.stream.length
  peer : t.peer = peer
  issued : ∀ i ∈ t.issued, i < bound

/-- What the loop of `get` makes of the whole stream. -/
def scanOf (peer : Peer) : Except FetchError (ResponseHead × List UInt8) :=
  match scan HeadParser.new peer.stream with
  | .more _ => .error peer.ending.headError
  | .complete head body => .ok (head, body)
  | .reject error => .error (.head (headCode error))

/-- The head that `get` accepts and the stream after it, or why `get` fails. -/
def headOf (peer : Peer) : Except FetchError (ResponseHead × List UInt8) :=
  match peer.write with
  | .timedOut => .error .timeout
  | .failed => .error .write
  | .done =>
    match peer.flush with
    | .timedOut => .error .timeout
    | .failed => .error .flush
    | .done => scanOf peer

/-- The loop's result is that of the whole stream; of what follows the head, a part
was read with it and the rest is pending. -/
def HeadResult (peer : Peer) (out : Except FetchError (ResponseHead × List UInt8) × Transport) :
    Prop :=
  match scanOf peer with
  | .error e => out.1 = .error e
  | .ok (head, body) => ∃ extra, out.1 = .ok (head, extra) ∧ extra.length < readChunk ∧
      extra ++ out.2.pending = body ∧ Open peer (peer.stream.length - body.length) out.2

theorem Open.deliver {peer : Peer} {bound bound' : Nat} {t : Transport} {data rest : List UInt8}
    (h : Open peer bound t) (hpending : t.pending = data ++ rest) (hle : bound ≤ bound')
    (hlt : t.received < bound') : Open peer bound' (t.issue.deliver data rest) := by
  have hreceived := h.received
  rw [hpending, List.length_append] at hreceived
  refine ⟨?_, h.peer, ?_⟩
  · simp only [Transport.deliver, Transport.issue]
    omega
  · intro i hi
    rcases List.mem_append.mp hi with hi | hi
    · exact Nat.lt_of_lt_of_le (h.issued i hi) hle
    · rw [List.mem_singleton.mp hi]
      exact hlt

/-- One round of `get` keeps what is left to scan, or leaves with the scan's result. -/
theorem headChunk_result {peer : Peer} {s : Transport × HeadParser}
    (hscan : scan s.2 s.1.pending = scan HeadParser.new peer.stream)
    (hopen : Open peer s.1.received s.1) :
    (∃ s', headChunk s = .inl s' ∧
      scan s'.2 s'.1.pending = scan HeadParser.new peer.stream ∧ Open peer s'.1.received s'.1) ∨
    (∃ out, headChunk s = .inr out ∧ HeadResult peer out) := by
  rcases s.1.readTimed_cases readChunk with
    ⟨hpending, hread⟩ | ⟨data, rest, hpending, hle, hne, hread⟩
  · rw [hpending, scan] at hscan
    rw [hopen.peer] at hread
    refine .inr ⟨(.error peer.ending.headError, s.1.issue), ?_, ?_⟩
    · unfold headChunk
      rw [hread]
      cases peer.ending <;> rfl
    · simp only [HeadResult, scanOf, ← hscan]
  · have hdata := hne (by decide)
    have hpos := List.length_pos_iff.mpr hdata
    have hreceived := hopen.received
    rw [hpending, List.length_append] at hreceived
    rw [hpending, scan_append] at hscan
    unfold headChunk
    simp only [hread, if_neg hdata]
    cases hs : scan s.2 data with
    | more parser =>
      rw [hs] at hscan
      refine .inl ⟨_, rfl, hscan, hopen.deliver hpending ?_ ?_⟩
      · exact Nat.le_add_right _ _
      · exact Nat.lt_add_of_pos_right hpos
    | complete head extra =>
      obtain ⟨used, hused, rfl⟩ := split_of_scan hs
      have hextra := List.length_pos_iff.mpr hused
      rw [List.length_append] at hle hreceived
      rw [hs] at hscan
      refine .inr ⟨_, rfl, ?_⟩
      simp only [HeadResult, scanOf, ← hscan]
      refine ⟨extra, rfl, by omega, rfl, hopen.deliver hpending ?_ ?_⟩ <;>
        simp only [List.length_append] <;>
        omega
    | reject error =>
      rw [hs] at hscan
      refine .inr ⟨_, rfl, ?_⟩
      simp only [HeadResult, scanOf, ← hscan]

theorem headLoop_result (peer : Peer) {t : Transport} (hpending : t.pending = peer.stream)
    (hopen : Open peer t.received t) : HeadResult peer (headLoop.run (t, HeadParser.new)) := by
  exact Loop.run_step_rule
    (I := fun s : Transport × HeadParser =>
      scan s.2 s.1.pending = scan HeadParser.new peer.stream ∧ Open peer s.1.received s.1)
    ⟨by rw [hpending], hopen⟩ fun h => headChunk_result h.1 h.2

/-- `get` over a fresh connection returns what the peer's stream makes of it. -/
theorem get_connect (peer : Peer) (request : List UInt8) (leftover : Vector UInt8 readChunk) :
    match headOf peer with
    | .error e => ∃ leftover' t,
        get (.connect peer) request leftover = (.error e, leftover', t)
    | .ok (head, body) => ∃ extra t,
        get (.connect peer) request leftover =
          (.ok (head, extra.length), overwrite leftover extra, t) ∧
        extra.length < readChunk ∧ extra ++ t.pending = body ∧
        Open peer (peer.stream.length - body.length) t := by
  have hresult := headLoop_result peer
    (t := { Transport.connect peer with sent := [] ++ request }) rfl
    ⟨Nat.zero_add _, rfl, by simp [Transport.connect]⟩
  unfold headOf get
  simp only [Transport.connect] at hresult ⊢
  cases peer.write with
  | timedOut => exact ⟨_, _, rfl⟩
  | failed => exact ⟨_, _, rfl⟩
  | done =>
    cases peer.flush with
    | timedOut => exact ⟨_, _, rfl⟩
    | failed => exact ⟨_, _, rfl⟩
    | done =>
      simp only
      generalize headLoop.run _ = out at hresult
      rcases out with ⟨result, t⟩
      unfold HeadResult at hresult
      cases hscan : scanOf peer with
      | error e =>
        simp only [hscan] at hresult ⊢
        subst hresult
        exact ⟨_, _, rfl⟩
      | ok answer =>
        obtain ⟨head, body⟩ := answer
        simp only [hscan] at hresult ⊢
        obtain ⟨extra, rfl, hlt, hbody, hopen⟩ := hresult
        exact ⟨extra, t, if_neg (by omega), hlt, hbody, hopen⟩

/-! ## The body -/

theorem Open.mono {peer : Peer} {bound bound' : Nat} {t : Transport} (h : Open peer bound t)
    (hle : bound ≤ bound') : Open peer bound' t :=
  ⟨h.received, h.peer, fun i hi => Nat.lt_of_lt_of_le (h.issued i hi) hle⟩

/-- The body source has handed out `k` bytes of `body`, the last of the stream. -/
structure BodyAt (peer : Peer) (body : List UInt8) (contentLength k : Nat)
    (r : HttpBody) : Prop where
  view : r.leftover ++ r.link.pending = body.drop k
  le : k ≤ body.length
  link : Open peer (peer.stream.length - body.length + contentLength) r.link

section

variable {peer : Peer} {body : List UInt8} {contentLength k : Nat} {r : HttpBody}

/-- With the leftover drained, everything handed out was received and nothing else. -/
theorem BodyAt.received_lt (h : BodyAt peer body contentLength k r) (hleft : r.leftover = [])
    (hlt : k < contentLength) :
    r.link.received < peer.stream.length - body.length + contentLength := by
  have hview := congrArg List.length h.view
  have hreceived := h.link.received
  have hle := h.le
  simp only [hleft, List.nil_append, List.length_drop] at hview
  omega

theorem BodyAt.more {slice : List UInt8} (h : BodyAt peer body contentLength k r)
    (hlt : k < contentLength) (hslice : slice ≠ []) (hmore : k < body.length) :
    ∃ data r', r.read slice = ((.ok data.length, data ++ slice.drop data.length), r') ∧
      data ≠ [] ∧ data.length ≤ slice.length ∧ data <+: body.drop k ∧
      BodyAt peer body contentLength (k + data.length) r' := by
  have hpos := List.length_pos_iff.mpr hslice
  by_cases hleft : r.leftover = []
  · have hview := h.view
    rw [hleft, List.nil_append] at hview
    rcases r.link.readTimed_cases slice.length with
      ⟨hpending, -⟩ | ⟨data, rest, hpending, hle, hne, hread⟩
    · have := congrArg List.length (hpending.symm.trans hview)
      rw [List.length_nil, List.length_drop] at this
      omega
    · have hsplit : data ++ rest = body.drop k := hpending.symm.trans hview
      refine ⟨data, { r with link := r.link.issue.deliver data rest }, ?_, hne hpos, hle,
        ⟨rest, hsplit⟩, ?_, ?_, ?_⟩
      · rw [HttpBody.read, if_neg (not_not.mpr hleft), hread]
      · rw [← List.drop_drop, ← hsplit, List.drop_left]
        simp only [hleft, List.nil_append, Transport.deliver]
      · have := congrArg List.length hsplit
        rw [List.length_append, List.length_drop] at this
        omega
      · exact h.link.deliver hpending (Nat.le_refl _) (h.received_lt hleft hlt)
  · have hleftpos := List.length_pos_iff.mpr hleft
    have hlength : (r.leftover.take (min slice.length r.leftover.length)).length =
        min slice.length r.leftover.length := by
      rw [List.length_take]
      omega
    have hview := h.view
    have hall := congrArg List.length hview
    rw [List.length_append, List.length_drop] at hall
    refine ⟨r.leftover.take (min slice.length r.leftover.length),
      { r with leftover := r.leftover.drop (min slice.length r.leftover.length) },
      ?_, ?_, ?_, ?_, ?_, ?_, ?_⟩
    · rw [hlength]
      exact if_pos hleft
    · rw [← List.length_pos_iff, hlength]
      omega
    · omega
    · rw [← hview]
      exact (List.take_prefix _ _).trans (List.prefix_append _ _)
    · rw [hlength, ← List.drop_drop, ← hview, List.drop_append_of_le_length (by omega)]
    · omega
    · exact h.link

theorem BodyAt.ended (slice : List UInt8) (h : BodyAt peer body contentLength k r)
    (hlt : k < contentLength) (hend : body.length ≤ k) :
    ∃ r', r.read slice = ((endResult peer.ending.bodyError, slice), r') ∧
      BodyAt peer body contentLength k r' := by
  have hview := h.view
  rw [List.drop_eq_nil_iff.mpr hend, List.append_eq_nil_iff] at hview
  obtain ⟨hleft, hpending⟩ := hview
  refine ⟨{ r with link := r.link.issue }, ?_, h.view, h.le, ?_⟩
  · rw [HttpBody.read, if_neg (not_not.mpr hleft), Transport.readTimed_of_ended hpending,
      h.link.peer]
    cases peer.ending <;> rfl
  · refine ⟨h.link.received, h.link.peer, fun i hi => ?_⟩
    rcases List.mem_append.mp hi with hi | hi
    · exact h.link.issued i hi
    · rw [List.mem_singleton.mp hi]
      exact h.received_lt hleft hlt

end

/-- The body source delivers what follows the head. -/
def httpDelivery (peer : Peer) (body : List UInt8) (contentLength : Nat) :
    Delivery httpBody contentLength body peer.ending.bodyError where
  At := BodyAt peer body contentLength
  more h hlt hslice hmore := h.more hlt hslice hmore
  ended h hlt _ hend := h.ended _ hlt hend

/-! ## Short bodies -/

/-- What `read_small` makes of a body: short only when the stream ends plainly. -/
def smallBody (body : List UInt8) (ending : Ending) (len : Nat) :
    Except FetchError (List UInt8) :=
  if len ≤ body.length then .ok (body.take len)
  else
    match ending.bodyError with
    | none => .ok body
    | some e => .error e

theorem smallChunk_full {s : List UInt8 × Transport} {len : Nat} (h : len ≤ s.1.length) :
    smallChunk len s = .inr (.ok s.1, s.2) :=
  if_neg (Nat.not_lt.mpr h)

/-- One round of `read_small` takes more of the body, or leaves with its result. -/
theorem smallChunk_result {s : List UInt8 × Transport} {body : List UInt8} {ending : Ending}
    {len : Nat} (hview : s.1 ++ s.2.pending = body) (hle : s.1.length ≤ len)
    (hending : s.2.peer.ending = ending) :
    (∃ s', smallChunk len s = .inl s' ∧ s'.1 ++ s'.2.pending = body ∧ s'.1.length ≤ len ∧
      s'.2.peer.ending = ending) ∨
    (∃ out, smallChunk len s = .inr out ∧ out.1 = smallBody body ending len) := by
  have hlength := congrArg List.length hview
  rw [List.length_append] at hlength
  by_cases hlt : s.1.length < len
  · rcases s.2.readTimed_cases (len - s.1.length) with
      ⟨hpending, hread⟩ | ⟨data, rest, hpending, hdata, hne, hread⟩
    · rw [hpending, List.append_nil] at hview
      have hshort : ¬ len ≤ body.length := by
        rw [← hview]
        omega
      rw [hending] at hread
      simp only [smallChunk, if_pos hlt, hread, smallBody, if_neg hshort]
      cases ending with
      | closed => exact .inr ⟨_, rfl, by simp only [Ending.bodyError, hview]⟩
      | timedOut => exact .inr ⟨_, rfl, rfl⟩
      | failed => exact .inr ⟨_, rfl, rfl⟩
    · have hne := hne (by omega)
      simp only [smallChunk, if_pos hlt, hread, if_neg hne]
      refine .inl ⟨_, rfl, ?_, ?_, hending⟩
      · rw [← hview, hpending, List.append_assoc]
        rfl
      · rw [List.length_append]
        omega
  · refine .inr ⟨_, smallChunk_full (Nat.not_lt.mp hlt), ?_⟩
    rw [smallBody, if_pos (by omega), ← hview, List.take_left' (by omega)]

theorem smallLoop_result {t : Transport} {got body : List UInt8} {len : Nat}
    (hview : got ++ t.pending = body) (hle : got.length ≤ len) :
    ((smallLoop len).run (got, t)).1 = smallBody body t.peer.ending len := by
  exact Loop.run_step_rule
    (I := fun s : List UInt8 × Transport =>
      s.1 ++ s.2.pending = body ∧ s.1.length ≤ len ∧ s.2.peer.ending = t.peer.ending)
    (Q := fun out : Except FetchError (List UInt8) × Transport =>
      out.1 = smallBody body t.peer.ending len)
    ⟨hview, hle, rfl⟩ fun h => smallChunk_result h.1 h.2.1 h.2.2

theorem readSmall_result {t : Transport} {leftover body : List UInt8} {len capacity : Nat}
    (hview : leftover ++ t.pending = body) (hcapacity : len ≤ capacity) :
    (readSmall t leftover len capacity).1 = smallBody body t.peer.ending len := by
  rw [readSmall, if_neg (Nat.not_lt.mpr hcapacity)]
  by_cases hle : leftover.length ≤ len
  · rw [Nat.min_eq_left hle, List.take_length]
    exact smallLoop_result hview hle
  · -- The leftover alone fills the body, and the loop is not entered.
    have hle : len ≤ leftover.length := by omega
    have htake : (leftover.take len).length = len := by
      rw [List.length_take]
      omega
    rw [Nat.min_eq_right hle, Loop.run_exit (smallChunk_full (Nat.le_of_eq htake.symm)),
      smallBody, ← hview, if_pos (by rw [List.length_append]; omega),
      List.take_append_of_le_length hle]

end Ota
end GarageDoor
