/-
The read loop of `get` over any connection.

What a read returns may depend on all that happened before it.  The loop pushes the bytes
into the parser over its buffer and counts them.
-/
import GarageDoor.App.Ota.Transport
import GarageDoor.Core.Ota.Http.Bounded
import GarageDoor.Library.Checked

namespace GarageDoor
namespace Ota

open Library

structure ReadState (τ : Type) where
  transport : τ
  parser : HeadParserAt
  pushed : Nat

namespace ReadState

/-- Before the first read. -/
def start {τ : Type} (t : τ) : ReadState τ where
  transport := t
  parser := .new
  pushed := 0

end ReadState

/-- A part of the loop; it has no errors but those it returns. -/
abbrev HeadRead (τ α : Type) : Type := Checked (ReadState τ) Empty α

namespace HeadRead

variable {τ : Type}

def readTimed (read : τ → Except FetchError (List UInt8) × τ) :
    HeadRead τ (Except FetchError (List UInt8)) := fun s =>
  let (result, transport) := read s.transport
  .ok result { s with transport }

def push (b : UInt8) : HeadRead τ HeadEvent := fun s =>
  match s.parser.push b with
  | none => .fault
  | some (event, parser) => .ok event { s with parser, pushed := s.pushed + 1 }

/-- The bytes of one read, until an event ends the loop. -/
def scanChunk : List UInt8 → HeadRead τ (Unit ⊕ Except FetchError (ResponseHead × List UInt8))
  | [] => pure (.inl ())
  | b :: rest => do
    match ← push b with
    | .needMore => scanChunk rest
    | .complete head => pure (.inr (.ok (head, rest)))
    | .reject error => pure (.inr (.error (.head (headCode error))))

def round (read : τ → Except FetchError (List UInt8) × τ) :
    HeadRead τ (Unit ⊕ Except FetchError (ResponseHead × List UInt8)) := do
  match ← readTimed read with
  | .error e => pure (.inr (.error e))
  | .ok data => if data = [] then pure (.inr (.error .closed)) else scanChunk data

/-- The loop of `get`; every round that goes on counts a byte. -/
def readHead (read : τ → Except FetchError (List UInt8) × τ) :
    HeadRead τ (Except FetchError (ResponseHead × List UInt8)) :=
  Checked.loop (fun s => maxHeadBytes + 1 - s.parser.total) (fun _ => round read) ()

end HeadRead

/-! ## One read -/

/-- The loop goes on from here. -/
structure ReadState.Live {τ : Type} (s : ReadState τ) : Prop where
  inBounds : s.parser.InBounds
  terminal : s.parser.terminal = none
  pushed : s.pushed = s.parser.total

/-- What the parser made of a chunk, as the loop sees it. -/
def Scan.next : Scan → HeadParser ⊕ Except FetchError (ResponseHead × List UInt8)
  | .more p => .inl p
  | .complete head extra => .inr (.ok (head, extra))
  | .reject error => .inr (.error (.head (headCode error)))

/-- What a read makes of the loop. -/
def readNext (p : HeadParser) : Except FetchError (List UInt8) →
    HeadParser ⊕ Except FetchError (ResponseHead × List UInt8)
  | .error e => .inr (.error e)
  | .ok data => if data = [] then .inr (.error .closed) else (scan p data).next

/-- The loop after a chunk is where the plain scan is. -/
structure AfterChunk {τ : Type} (s : ReadState τ) (data : List UInt8)
    (r : Unit ⊕ Except FetchError (ResponseHead × List UInt8)) (s' : ReadState τ) : Prop where
  transport : s'.transport = s.transport
  pushed : s'.pushed ≤ maxHeadBytes + 1
  next : (scan s.parser.view data).next = r.elim (fun _ => .inl s'.parser.view) .inr
  live : r = .inl () → s'.Live ∧ s'.parser.total = s.parser.total + data.length

section

variable {τ : Type} {s : ReadState τ} {data : List UInt8}

theorem HeadRead.scanChunk_returns (h : s.Live) :
    (HeadRead.scanChunk data s).Returns (AfterChunk s data) := by
  induction data generalizing s with
  | nil =>
    have hle : s.pushed ≤ maxHeadBytes + 1 := by
      rw [h.pushed]
      exact h.inBounds.total_le
    exact ⟨_, s, rfl, rfl, hle, rfl, fun _ => ⟨h, rfl⟩⟩
  | cons b rest ih =>
    obtain ⟨event, q, hsteps⟩ := h.inBounds.steps b
    obtain ⟨htotal, hmore⟩ := hsteps.counted h.terminal
    let s' : ReadState τ := { s with parser := q, pushed := s.pushed + 1 }
    have hpushed : s'.pushed = q.total := by
      show s.pushed + 1 = q.total
      rw [htotal, h.pushed]
    have hle : s'.pushed ≤ maxHeadBytes + 1 := hpushed ▸ hsteps.inBounds.total_le
    have hpush : HeadRead.push b s = .ok event s' := by
      unfold HeadRead.push
      rw [hsteps.push]
    have hscan : scan s.parser.view (b :: rest) = match event with
        | .needMore => scan q.view rest
        | .complete head => .complete head rest
        | .reject error => .reject error := by
      rw [scan, hsteps.view]
      cases event <;> rfl
    rw [HeadRead.scanChunk, Checked.bind_apply, hpush, Outcome.ok_bind]
    cases event with
    | needMore =>
      have hlive : s'.Live := ⟨hsteps.inBounds, hmore rfl, hpushed⟩
      refine (ih hlive).mono fun r t ht => ⟨ht.transport, ht.pushed, ?_, fun hr => ?_⟩
      · rw [hscan]
        exact ht.next
      · obtain ⟨hlive', htotal'⟩ := ht.live hr
        refine ⟨hlive', ?_⟩
        rw [htotal', List.length_cons]
        show q.total + rest.length = _
        omega
    | complete head => exact ⟨_, s', rfl, rfl, hle, by rw [hscan]; rfl, nofun⟩
    | reject error => exact ⟨_, s', rfl, rfl, hle, by rw [hscan]; rfl, nofun⟩

theorem ReadState.live_start (t : τ) : (ReadState.start t).Live :=
  ⟨HeadParserAt.inBounds_new, rfl, rfl⟩

/-- What a round does with what is read. -/
structure AfterRound (s : ReadState τ) (result : Except FetchError (List UInt8))
    (r : Unit ⊕ Except FetchError (ResponseHead × List UInt8)) (s' : ReadState τ) : Prop where
  pushed : s'.pushed ≤ maxHeadBytes + 1
  live : r = .inl () → s'.Live ∧ s.parser.total < s'.parser.total
  next : readNext s.parser.view result = r.elim (fun _ => .inl s'.parser.view) .inr

theorem HeadRead.round_returns {read : τ → Except FetchError (List UInt8) × τ} (h : s.Live) :
    (HeadRead.round read s).Returns fun r s' =>
      AfterRound s (read s.transport).1 r s' ∧ s'.transport = (read s.transport).2 := by
  let s₁ : ReadState τ := { s with transport := (read s.transport).2 }
  have hlive : s₁.Live := ⟨h.inBounds, h.terminal, h.pushed⟩
  have hle : s.pushed ≤ maxHeadBytes + 1 := by
    rw [h.pushed]
    exact h.inBounds.total_le
  have hread : HeadRead.readTimed read s = .ok (read s.transport).1 s₁ := rfl
  unfold HeadRead.round
  rw [Checked.bind_apply, hread, Outcome.ok_bind]
  cases hresult : (read s.transport).1 with
  | error e => exact ⟨_, s₁, rfl, ⟨hle, nofun, rfl⟩, rfl⟩
  | ok data =>
    dsimp only
    by_cases hnil : data = []
    · rw [if_pos hnil]
      exact ⟨_, s₁, rfl, ⟨hle, nofun, if_pos hnil⟩, rfl⟩
    · rw [if_neg hnil]
      refine (HeadRead.scanChunk_returns hlive).mono fun r s' hs' => ⟨⟨hs'.pushed, ?_, ?_⟩, ?_⟩
      · intro hr
        obtain ⟨hlive', htotal⟩ := hs'.live hr
        have hpos := List.length_pos_iff.mpr hnil
        have hsame : s₁.parser.total = s.parser.total := rfl
        exact ⟨hlive', by omega⟩
      · exact (if_neg hnil).trans hs'.next
      · exact hs'.transport

/-- Whatever is read, the loop ends, and it has pushed no more than one byte past the
limit. -/
theorem HeadRead.readHead_returns (read : τ → Except FetchError (List UInt8) × τ) (t : τ) :
    (HeadRead.readHead read (.start t)).Returns fun _ s => s.pushed ≤ maxHeadBytes + 1 := by
  refine Outcome.Returns.loop (I := fun _ s => s.Live) (ReadState.live_start t) ?_
  intro _ s hlive
  refine (HeadRead.round_returns hlive).mono fun r s' ⟨hround, _⟩ => ?_
  cases r with
  | inl u =>
    obtain ⟨hlive', hlt⟩ := hround.live rfl
    have hle := hlive'.inBounds.total_le
    exact ⟨by omega, hlive'⟩
  | inr result => exact hround.pushed

theorem headChunk_eq (t : Transport) (p : HeadParser) :
    headChunk (t, p) = match readNext p (t.readTimed readChunk).1 with
      | .inl q => .inl ((t.readTimed readChunk).2, q)
      | .inr result => .inr (result, (t.readTimed readChunk).2) := by
  unfold headChunk
  rcases t.readTimed readChunk with ⟨result, t'⟩
  cases result with
  | error e => rfl
  | ok data =>
    dsimp only [readNext]
    by_cases hnil : data = []
    · rw [if_pos hnil, if_pos hnil]
    · rw [if_neg hnil, if_neg hnil]
      cases scan p data <;> rfl

/-- On a connection of the model it is the loop that `get` runs. -/
theorem HeadRead.readHead_transport (t : Transport) :
    (HeadRead.readHead (fun t => t.readTimed readChunk) (.start t)).Returns fun result s =>
      headLoop.run (t, .new) = (result, s.transport) := by
  refine Outcome.Returns.loop
    (I := fun _ s => s.Live ∧ headLoop.run (s.transport, s.parser.view) = headLoop.run (t, .new))
    ⟨ReadState.live_start t, rfl⟩ ?_
  intro _ s ⟨hlive, hrun⟩
  refine (HeadRead.round_returns hlive).mono fun r s' ⟨hround, htransport⟩ => ?_
  have hchunk := headChunk_eq s.transport s.parser.view
  rw [hround.next, ← htransport] at hchunk
  cases r with
  | inl u =>
    obtain ⟨hlive', hlt⟩ := hround.live rfl
    have hle := hlive'.inBounds.total_le
    have hnext : headLoop.run (s.transport, s.parser.view) =
        headLoop.run (s'.transport, s'.parser.view) := Loop.run_next hchunk
    exact ⟨by omega, hlive', by rw [← hnext, hrun]⟩
  | inr result =>
    have hexit : headLoop.run (s.transport, s.parser.view) = (result, s'.transport) :=
      Loop.run_exit hchunk
    exact hrun.symm.trans hexit

/-- What keeps the head parser inside its buffer and ends the loop around it. -/
structure HeadBounded : Prop where
  /-- Whatever is pushed, no index is out of range and there is room where a byte is
  stored. -/
  pushes : ∀ s : List UInt8, ∃ p, HeadParserAt.new.feed s = some p ∧
    p.view = HeadParser.new.feed s ∧ p.lineLen ≤ p.total ∧ p.total ≤ 2049 ∧
    (p.terminal = none → p.total + 1 ≤ maxHeadBytes → p.lineLen < 2048) ∧
    ∀ b, p.push b ≠ none
  status : ∀ line, parseStatusAt line = some (parseStatus line)
  ends : ∀ s : Nat → UInt8, ∃ n < 2049, ∃ event,
    HeadParserAt.eventAt s n = some event ∧ event ≠ .needMore
  reads : ∀ (τ : Type) (read : τ → Except FetchError (List UInt8) × τ) (t : τ),
    (HeadRead.readHead read (.start t)).Returns fun _ s => s.pushed ≤ 2049
  transport : ∀ t : Transport,
    (HeadRead.readHead (fun t => t.readTimed readChunk) (.start t)).Returns fun result s =>
      headLoop.run (t, .new) = (result, s.transport)

/-- The head parser stays inside its buffer and always ends. -/
theorem head_bounded : HeadBounded where
  pushes s := by
    obtain ⟨p, hfeed, hp, hview⟩ := HeadParserAt.inBounds_new.feed s
    refine ⟨p, hfeed, hview, hp.lineLen_le, hp.total_le, fun _ => hp.lineLen_lt, fun b => ?_⟩
    obtain ⟨event, q, hsteps⟩ := hp.steps b
    rw [hsteps.push]
    exact Option.some_ne_none _
  status := parseStatusAt_eq
  ends s := by
    obtain ⟨n, hn, event, hevent, hne⟩ := HeadParserAt.exists_terminal s
    exact ⟨n, Nat.lt_succ_of_le hn, event, hevent, hne⟩
  reads _ read t := HeadRead.readHead_returns read t
  transport := HeadRead.readHead_transport

end

end Ota
end GarageDoor
