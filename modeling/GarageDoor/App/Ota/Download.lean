/-
Downloading an image over a connection that fragments as it likes.

`get` and the update session behind it are compared with the response stream taken
in one piece.
-/
import GarageDoor.App.Ota.Response

namespace GarageDoor
namespace Ota

open Library Flash

inductive Download where
  | failed (error : FetchError)
  | noLength (head : ResponseHead)
  | applied (head : ResponseHead) (result : Except (UpdateError Empty FetchError) Unit)

section

variable {η : Type} (sha : StreamingDigest η Digest)

/-- `get`, then `applyUpdate` over the body. -/
def download (t : Transport) (request : List UInt8) (leftover : Vector UInt8 readChunk)
    (cells : Nat → Option UInt8) (expected : Digest) :
    Download × (Nat → Option UInt8) × Transport :=
  match get t request leftover with
  | (.error e, _, t) => (.failed e, cells, t)
  | (.ok (head, extra), leftover, t) =>
    match head.contentLength with
    | none => (.noLength head, cells, t)
    | some len =>
      let body := { link := t, leftover := leftover.toList.take extra }
      let (result, cells, body) := applyUpdate sha storing httpBody cells body len expected
      (.applied head result, cells, body.link)

/-- The download of a response taken in one piece. -/
def downloaded (peer : Peer) (cells : Nat → Option UInt8) (expected : Digest) :
    Download × (Nat → Option UInt8) :=
  match headOf peer with
  | .error e => (.failed e, cells)
  | .ok (head, body) =>
    match head.contentLength with
    | none => (.noLength head, cells)
    | some len =>
      (.applied head (streamResult sha len expected body peer.ending.bodyError),
        overlay cells 0 (streamImage len body))

/-- The download of a response whose head declares a length. -/
theorem download_of_head {peer : Peer} (request : List UInt8)
    (leftover : Vector UInt8 readChunk) (cells : Nat → Option UInt8) (expected : Digest)
    {len : Nat} {head : ResponseHead} {body : List UInt8} (hhead : headOf peer = .ok (head, body))
    (hlen : head.contentLength = some len) :
    let out := download sha (.connect peer) request leftover cells expected
    out.1 = .applied head (streamResult sha len expected body peer.ending.bodyError) ∧
    out.2.1 = overlay cells 0 (streamImage len body) ∧
    ∀ i ∈ out.2.2.issued, i < peer.stream.length - body.length + len := by
  have hget := get_connect peer request leftover
  rw [hhead] at hget
  obtain ⟨extra, t, hget, hextra, hview, hopen⟩ := hget
  have hfront : (overwrite leftover extra).toList.take extra.length = extra :=
    take_overwrite (Nat.le_of_lt hextra)
  have hbody : (httpDelivery peer body len).At 0 { link := t, leftover := extra } :=
    ⟨hview, Nat.zero_le _, hopen.mono (Nat.le_add_right _ _)⟩
  obtain ⟨⟨k, hk⟩, hfailed | ⟨hresult, hcells⟩⟩ :=
    applyUpdate_of_delivery sha (storingSink cells) (httpDelivery peer body len)
      (overlay_nil cells 0).symm hbody expected
  · obtain ⟨e, -⟩ := hfailed
    exact e.elim
  · simp only [download, hget, hlen, hfront]
    exact ⟨by rw [hresult], hcells, hk.link.issued⟩

/-- A download does what the response taken in one piece does. -/
theorem download_connect (peer : Peer) (request : List UInt8)
    (leftover : Vector UInt8 readChunk) (cells : Nat → Option UInt8) (expected : Digest) :
    let out := download sha (.connect peer) request leftover cells expected
    out.1 = (downloaded sha peer cells expected).1 ∧
    out.2.1 = (downloaded sha peer cells expected).2 := by
  have hget := get_connect peer request leftover
  cases hhead : headOf peer with
  | error e =>
    rw [hhead] at hget
    obtain ⟨leftover', t, hget⟩ := hget
    simp [download, downloaded, hhead, hget]
  | ok answer =>
    obtain ⟨head, body⟩ := answer
    cases hlen : head.contentLength with
    | none =>
      rw [hhead] at hget
      obtain ⟨extra, t, hget, -⟩ := hget
      simp [download, downloaded, hhead, hget, hlen]
    | some len =>
      obtain ⟨hresult, hcells, -⟩ := download_of_head sha request leftover cells expected hhead hlen
      simp only [hresult, hcells, downloaded, hhead, hlen, and_self]

theorem headOf_ne_leftover (peer : Peer) : headOf peer ≠ .error .leftover := by
  unfold headOf scanOf
  cases peer.write with
  | timedOut => simp
  | failed => simp
  | done =>
    cases peer.flush with
    | timedOut => simp
    | failed => simp
    | done =>
      cases hscan : scan HeadParser.new peer.stream with
      | more parser => cases peer.ending <;> simp [Ending.headError]
      | complete head body => simp
      | reject error => simp

theorem downloaded_ne_leftover (peer : Peer) (cells : Nat → Option UInt8) (expected : Digest) :
    (downloaded sha peer cells expected).1 ≠ .failed .leftover := by
  have hne := headOf_ne_leftover peer
  unfold downloaded
  cases hhead : headOf peer with
  | error e =>
    rw [hhead] at hne
    simpa using hne
  | ok answer => cases hlen : answer.1.contentLength <;> simp [hlen]

/-- The peer that takes the request and answers with `stream`. -/
def answering (stream : List UInt8) (ending : Ending) (fragmentation : Fragmentation) : Peer where
  write := .done
  flush := .done
  fragmentation := fragmentation
  ending := ending
  stream := stream

/-- A connection that hands out all that is asked for. -/
def wholesale : Fragmentation where
  size _ requested := requested
  size_pos _ _ hpos := hpos
  size_le _ _ := Nat.le_refl _

theorem headOf_answering {stream : List UInt8} {n : Nat} {head : ResponseHead}
    (h : FirstEvent stream n (.complete head)) (ending : Ending)
    (fragmentation : Fragmentation) :
    headOf (answering stream ending fragmentation) = .ok (head, stream.drop n) := by
  simp only [headOf, scanOf, answering, scan_of_firstEvent h]

/-- How the network splits the response never shows in the image.  Once the head
declares a length, byte `k` of the image is byte `k` after the head, no read is
issued when the declared bytes have arrived, and neither what follows them nor how
the connection ends matters. -/
theorem download_fragmentation (sha : StreamingDigest η Digest) (stream request : List UInt8)
    (cells : Nat → Option UInt8) (expected : Digest) :
    let run stream ending fragmentation leftover :=
      download sha (.connect (answering stream ending fragmentation)) request leftover cells
        expected
    (∀ ending fragmentation fragmentation' leftover leftover',
      let out := run stream ending fragmentation leftover
      let out' := run stream ending fragmentation' leftover'
      out.1 = out'.1 ∧ out.2.1 = out'.2.1 ∧ out.1 ≠ .failed .leftover) ∧
    ∀ n head len, FirstEvent stream n (.complete head) → head.contentLength = some len →
      len ≤ activeBytes → ∀ ending fragmentation leftover,
      let out := run stream ending fragmentation leftover
      (∀ k, out.2.1 k = (if k < len then stream[n + k]? else none).or (cells k)) ∧
      (out.1 = .applied head (.ok ()) ↔
        n + len ≤ stream.length ∧ sha.hash ((stream.drop n).take len) = expected) ∧
      (∀ i ∈ out.2.2.issued, i < n + len) ∧
      (n + len ≤ stream.length → ∀ stream' ending' fragmentation' leftover',
        stream'.take (n + len) = stream.take (n + len) →
        let out' := run stream' ending' fragmentation' leftover'
        out.1 = out'.1 ∧ out.2.1 = out'.2.1) := by
  refine ⟨?_, ?_⟩
  · intro ending fragmentation fragmentation' leftover leftover'
    obtain ⟨hout, hcells⟩ := download_connect sha
      (answering stream ending fragmentation) request leftover cells expected
    obtain ⟨hout', hcells'⟩ := download_connect sha
      (answering stream ending fragmentation') request leftover' cells expected
    refine ⟨hout.trans hout'.symm, hcells.trans hcells'.symm, ?_⟩
    rw [hout]
    exact downloaded_ne_leftover sha _ cells expected
  · intro n head len hfirst hlen hactive ending fragmentation leftover
    have hn := hfirst.le_length
    have himage : ∀ body, streamImage len body = body.take len :=
      fun _ => if_neg (Nat.not_lt.mpr hactive)
    obtain ⟨hout, hcells, hissued⟩ :=
      download_of_head sha request leftover cells expected
        (headOf_answering hfirst ending fragmentation) hlen
    rw [himage] at hcells
    refine ⟨fun k => ?_, ?_, ?_, ?_⟩
    · rw [hcells, overlay_zero, List.getElem?_take, List.getElem?_drop]
    · rw [hout, Download.applied.injEq, eq_self_iff_true, true_and,
        streamResult_eq_ok hactive, List.length_drop]
      constructor
      · exact fun h => ⟨by omega, h.2⟩
      · exact fun h => ⟨by omega, h.2⟩
    · intro i hi
      have := hissued i hi
      simp only [answering, List.length_drop] at this
      omega
    · intro hlong stream' ending' fragmentation' leftover' htake
      have hbody : (stream'.drop n).take len = (stream.drop n).take len := by
        rw [List.take_drop, List.take_drop, htake]
      have hfirst' : FirstEvent stream' n (.complete head) := by
        refine hfirst.of_take ?_
        rw [← Nat.min_eq_left (Nat.le_add_right n len), ← List.take_take, htake, List.take_take]
      obtain ⟨hout', hcells', -⟩ :=
        download_of_head sha request leftover' cells expected
          (headOf_answering hfirst' ending' fragmentation') hlen
      rw [himage] at hcells'
      have hbodyLength : len ≤ (stream.drop n).length := by
        rw [List.length_drop]
        omega
      refine ⟨?_, ?_⟩
      · rw [hout, hout']
        exact congrArg _ (streamResult_congr sha expected _ _ hbodyLength hbody)
      · rw [hcells, hcells', hbody]

end

end Ota
end GarageDoor
