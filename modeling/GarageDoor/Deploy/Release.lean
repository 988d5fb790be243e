/-
What a device fetches is one release.

The invariant says how far the script is with the files of the release it publishes, and
that a device in the middle of a check goes by a release that was published.
-/
import GarageDoor.Deploy.Publish

namespace GarageDoor
namespace Deploy

open Library Ascii Ota

/-- The release that is on its way. -/
def Phase.building : Phase → Option Build
  | .copying b _ | .opening b _ | .renaming b => some b
  | _ => none

/-- How far the files of the release are. -/
def Progress (hash : List UInt8 → Digest) (dir : Directory) : Phase → Prop
  | .copying b .checksum => Written dir (binName b.version) b.image
  | .opening b .image =>
    Written dir (binName b.version) b.image ∧ Written dir (shaName b.version) (b.checksumFile hash)
  | .opening b .checksum =>
    Has dir (binName b.version) b.image ∧ Written dir (shaName b.version) (b.checksumFile hash)
  | .copying b .version => Complete hash dir b
  | .opening b .version => Complete hash dir b ∧ Written dir versionTmp b.versionFile
  | .renaming b => Complete hash dir b ∧ Has dir versionTmp b.versionFile
  | _ => True

/-- The device goes by a release that was published. -/
def Follows (hash : List UInt8 → Digest) (history : List Build) : Reader → Prop
  | .idle => True
  | .versioned remote => ∃ b ∈ history, b.version = numeral remote
  | .digested remote expected =>
    ∃ b ∈ history, b.version = numeral remote ∧ expected = hash b.image

/-- Names that the prune may remove. -/
def Disposable (history : List Build) (name : Text) : Prop :=
  name ≠ versionName ∧
    ∀ b, history.getLast? = some b → name ≠ binName b.version ∧ name ≠ shaName b.version

structure Sound (hash : List UInt8 → Digest) (s : Site) : Prop where
  records : Records hash s.dir s.history
  fresh : ∀ b, s.phase.building = some b →
    Canonical b.version ∧ ∀ b' ∈ s.history, b'.version ≠ b.version
  progress : Progress hash s.dir s.phase
  todo : ∀ todo, s.phase = .pruning todo → ∀ name ∈ todo, Disposable s.history name
  reader : Follows hash s.history s.reader

/-- What is deployed has a version of its own, without a leading zero. -/
def Bumped (s : Site) (e : Event) : Prop :=
  ∀ b, e = .deploy b → Canonical b.version ∧ ∀ b' ∈ s.history, b'.version ≠ b.version

/-! ## One step of the script -/

inductive Publishes (hash : List UInt8 → Digest) (s : Site) : Event → Site → Prop where
  | deploy {b} (h : s.phase = .idle) :
      Publishes hash s (.deploy b) { s with phase := .copying b .image }
  | wrote {b target written readable} (h : s.phase = .copying b target) :
      Publishes hash s (.wrote written readable)
        { s with
            dir := write s.dir (target.name b) ((target.content hash b).take written) readable }
  | copied {b target readable} (h : s.phase = .copying b target) :
      Publishes hash s (.copied readable)
        { s with phase := afterCopy b target,
                 dir := write s.dir (target.name b) (target.content hash b) readable }
  | opened {b target f} (h : s.phase = .opening b target)
      (hf : s.dir.lookup (target.name b) = some f) :
      Publishes hash s .opened
        { s with phase := afterOpen b target,
                 dir := s.dir.insert (target.name b) { f with readable := true } }
  | renamed {b dir} (h : s.phase = .renaming b)
      (hrename : rename s.dir versionTmp versionName = some dir) :
      Publishes hash s .renamed
        { s with phase := .pruning (prune b.version dir), history := s.history ++ [b], dir }
  | removed {todo name} (h : s.phase = .pruning todo) (hmem : name ∈ todo) :
      Publishes hash s (.removed name)
        { s with phase := .pruning (todo.erase name), dir := s.dir.erase name }
  | finished (h : s.phase = .pruning []) : Publishes hash s .finished { s with phase := .idle }
  | failed (h : s.phase ≠ .idle) : Publishes hash s .failed { s with phase := .idle }

section

variable {hash : List UInt8 → Digest} {s s' : Site} {e : Event} {dir dir' : Directory}
  {history : List Build} {b : Build} {name : Text} {target : Target} {content : List UInt8}

theorem publishes_of_publish (h : publish hash s s.phase e = some s') : Publishes hash s e s' := by
  generalize hphase : s.phase = phase at h
  unfold publish at h
  split at h
  · cases h
    exact .deploy hphase
  · cases h
    exact .wrote hphase
  · cases h
    exact .copied hphase
  · obtain ⟨dir, hchmod, rfl⟩ := Option.map_eq_some_iff.mp h
    obtain ⟨f, hf, rfl⟩ := chmod_eq_some.mp hchmod
    exact .opened hphase hf
  · obtain ⟨dir, hrename, rfl⟩ := Option.map_eq_some_iff.mp h
    exact .renamed hphase hrename
  · split at h
    · next hmem =>
      cases h
      exact .removed hphase (List.contains_iff_mem.mp hmem)
    · cases h
  · cases h
    exact .finished hphase
  · cases h
  · next hidle =>
    cases h
    exact .failed fun heq => hidle (hphase.symm.trans heq)
  · cases h

theorem Written.of_ne {f : File} (h : Written dir name content) {other : Text}
    (hne : name ≠ other) : Written (dir.insert other f) name content := by
  obtain ⟨readable, h⟩ := h
  exact ⟨readable, (AList.lookup_insert_ne hne).trans h⟩

theorem Has.of_ne {f : File} (h : Has dir name content) {other : Text} (hne : name ≠ other) :
    Has (dir.insert other f) name content := (AList.lookup_insert_ne hne).trans h

theorem written_write (dir : Directory) (name : Text) (content : List UInt8) (readable : Bool) :
    Written (write dir name content readable) name content := ⟨_, AList.lookup_insert dir⟩

theorem Complete.insert_tmp {f : File} (h : Complete hash dir b) :
    Complete hash (dir.insert versionTmp f) b :=
  ⟨h.image.of_ne binName_ne_tmp, h.checksum.of_ne shaName_ne_tmp⟩

/-- A copy under way leaves the files before it. -/
theorem Progress.wrote {f : File} (h : Progress hash dir (.copying b target)) :
    Progress hash (dir.insert (target.name b) f) (.copying b target) := by
  cases target with
  | image => trivial
  | checksum => exact Written.of_ne h (binName_ne_shaName _ _)
  | version => exact Complete.insert_tmp h

theorem Progress.copied {readable : Bool} (h : Progress hash dir (.copying b target)) :
    Progress hash (write dir (target.name b) (target.content hash b) readable)
      (afterCopy b target) := by
  have hwritten := written_write dir (target.name b) (target.content hash b) readable
  cases target with
  | image => exact hwritten
  | checksum => exact ⟨Written.of_ne h (binName_ne_shaName _ _), hwritten⟩
  | version => exact ⟨Complete.insert_tmp h, hwritten⟩

theorem Written.opened {f : File} (h : Written dir name content) (hf : dir.lookup name = some f) :
    Has (dir.insert name { f with readable := true }) name content := by
  obtain ⟨readable, h⟩ := h
  obtain rfl : f = { content, readable } := Option.some.inj (hf.symm.trans h)
  exact AList.lookup_insert dir

theorem Progress.opened {f : File} (h : Progress hash dir (.opening b target))
    (hf : dir.lookup (target.name b) = some f) :
    Progress hash (dir.insert (target.name b) { f with readable := true })
      (afterOpen b target) := by
  cases target with
  | image =>
    exact ⟨Written.opened h.1 hf, Written.of_ne h.2 (binName_ne_shaName _ _).symm⟩
  | checksum =>
    exact ⟨Has.of_ne h.1 (binName_ne_shaName _ _), Written.opened h.2 hf⟩
  | version => exact ⟨Complete.insert_tmp h.1, Written.opened h.2 hf⟩

theorem building_afterCopy (b : Build) (target : Target) :
    (afterCopy b target).building = some b := by cases target <;> rfl

theorem building_afterOpen (b : Build) (target : Target) :
    (afterOpen b target).building = some b := by cases target <;> rfl

/-- The prune does not remove the files of the release that was just published. -/
theorem disposable_of_mem_prune (h : name ∈ prune b.version dir) :
    Disposable (history ++ [b]) name := by
  obtain ⟨base, hname, -, -, hne, -⟩ := mem_prune.mp h
  have hbase : base ≠ b.version := by
    rintro rfl
    exact hne rfl
  refine ⟨?_, fun b' hb' => ?_⟩
  · rcases hname with rfl | rfl
    · exact binName_ne_version
    · exact shaName_ne_version
  · rw [List.getLast?_concat] at hb'
    cases hb'
    rcases hname with rfl | rfl
    · exact ⟨fun h => hbase (binName_inj h), binName_ne_shaName _ _⟩
    · exact ⟨(binName_ne_shaName _ _).symm, fun h => hbase (shaName_inj h)⟩

theorem Follows.mono {reader : Reader} (h : Follows hash history reader) (b : Build) :
    Follows hash (history ++ [b]) reader := by
  cases reader with
  | idle => trivial
  | versioned remote =>
    obtain ⟨b', hb', hversion⟩ := h
    exact ⟨b', List.mem_append_left _ hb', hversion⟩
  | digested remote expected =>
    obtain ⟨b', hb', hversion⟩ := h
    exact ⟨b', List.mem_append_left _ hb', hversion⟩

theorem Sound.publishes (h : Sound hash s) (hbumped : Bumped s e)
    (hs : Publishes hash s e s') : Sound hash s' := by
  cases hs with
  | @deploy b hphase =>
    refine ⟨h.records, fun b' hb' => ?_, trivial, nofun, h.reader⟩
    cases hb'
    exact hbumped b rfl
  | @wrote b target written readable hphase =>
    have hprogress := h.progress
    have hfresh := h.fresh b (by rw [hphase]; rfl)
    rw [hphase] at hprogress
    refine ⟨h.records.insert (not_published_target hfresh.2 target) _, h.fresh, ?_, h.todo,
      h.reader⟩
    rw [hphase]
    exact hprogress.wrote
  | @copied b target readable hphase =>
    have hprogress := h.progress
    have hfresh := h.fresh b (by rw [hphase]; rfl)
    rw [hphase] at hprogress
    refine ⟨h.records.insert (not_published_target hfresh.2 target) _, fun b' hb' => ?_,
      hprogress.copied, fun todo htodo => ?_, h.reader⟩
    · rw [building_afterCopy] at hb'
      cases hb'
      exact hfresh
    · cases target <;> cases htodo
  | @opened b target f hphase hf =>
    have hprogress := h.progress
    have hfresh := h.fresh b (by rw [hphase]; rfl)
    rw [hphase] at hprogress
    refine ⟨h.records.insert (not_published_target hfresh.2 target) _, fun b' hb' => ?_,
      hprogress.opened hf, fun todo htodo => ?_, h.reader⟩
    · rw [building_afterOpen] at hb'
      cases hb'
      exact hfresh
    · cases target <;> cases htodo
  | @renamed b dir hphase hrename =>
    have hprogress := h.progress
    have hfresh := h.fresh b (by rw [hphase]; rfl)
    rw [hphase] at hprogress
    obtain ⟨hrecords, -⟩ := h.records.rename hfresh.1 hprogress.1 hprogress.2 hrename
    refine ⟨hrecords, nofun, trivial, fun todo htodo => ?_, h.reader.mono b⟩
    cases htodo
    exact fun name hname => disposable_of_mem_prune hname
  | @removed todo name hphase hmem =>
    have hdisposable := h.todo todo hphase
    obtain ⟨hversion, hlast⟩ := hdisposable name hmem
    refine ⟨h.records.erase hversion hlast, nofun, trivial, fun todo' htodo => ?_, h.reader⟩
    cases htodo
    exact fun other hother => hdisposable other (List.mem_of_mem_erase hother)
  | finished hphase => exact ⟨h.records, nofun, trivial, nofun, h.reader⟩
  | failed hphase => exact ⟨h.records, nofun, trivial, nofun, h.reader⟩

end

/-! ## One step of the device -/

section

variable {hash : List UInt8 → Digest} {s s' : Site} {e : Event} {o os : List Observation}
  {dir : Directory} {history : List Build} {b : Build} {remote : Nat} {expected : Digest}
  {image : List UInt8} {es : List Event}

theorem readVersion_eq (h : Records hash dir history) (hread : readVersion dir = some remote) :
    ∃ b, history.getLast? = some b ∧ b.version = numeral remote := by
  obtain ⟨content, hsmall, hparse⟩ := Option.bind_eq_some_iff.mp hread
  have hget := get_eq_some (Option.filter_eq_some_iff.mp hsmall).1
  rw [h.version, Option.map_eq_some_iff] at hget
  obtain ⟨b, hb, hcontent⟩ := hget
  have hmem := List.mem_of_getLast? hb
  obtain ⟨hne, hdigits⟩ := b.digits
  obtain rfl : b.version ++ [10] = content := congrArg File.content hcontent
  have htrim : trim (b.version ++ [10]) = b.version := trim_versionFile hdigits
  obtain ⟨-, hvalue, -⟩ := parseVersion_eq_some.mp hparse
  rw [htrim] at hvalue
  refine ⟨b, hb, ?_⟩
  rw [← hvalue]
  exact ((numeral_decimal_iff hne hdigits).mpr (h.canonical b hmem)).symm

theorem not_whitespace_of_hex {c : UInt8} (h : Hex.IsDigit c) : ¬ isWhitespace c = true := by
  apply not_whitespace_of_ge
  rcases h with ⟨h, -⟩ | ⟨h, -⟩
  · exact Nat.le_trans (by decide) (UInt8.le_iff_toNat_le.mp h)
  · exact Nat.le_trans (by decide) (UInt8.le_iff_toNat_le.mp h)

theorem parse_checksumFile (b : Build) (h : parseSha256Hex (b.checksumFile hash) = some expected) :
    expected = hash b.image := by
  have htrim := trim_surrounded (Hex.encode (hash b.image).toList)
    (List.forall_mem_nil (fun c => isWhitespace c = true))
    (List.forall_mem_singleton.mpr (rfl : isWhitespace 10 = true))
  rw [List.nil_append, trim_eq_self fun c hc => not_whitespace_of_hex (Hex.isDigit_encode c hc)]
    at htrim
  rw [parseSha256Hex_eq_some, Build.checksumFile, htrim] at h
  exact (Vector.toList_inj.mp (Hex.encode_injective h)).symm

theorem readExpected_eq (h : Records hash dir history) (hmem : b ∈ history)
    (hversion : b.version = numeral remote) (hread : readExpected dir remote = some expected) :
    expected = hash b.image := by
  obtain ⟨name, hname, hrest⟩ := Option.bind_eq_some_iff.mp hread
  obtain ⟨content, hsmall, hparse⟩ := Option.bind_eq_some_iff.mp hrest
  have hget := get_eq_some (Option.filter_eq_some_iff.mp hsmall).1
  obtain rfl : name = shaName b.version := by
    rw [hversion]
    exact fileName_published hname
  obtain rfl : content = b.checksumFile hash :=
    congrArg File.content ((h.unaltered b hmem).checksum _ hget)
  exact parse_checksumFile b hparse

theorem readImage_eq (h : Records hash dir history) (hmem : b ∈ history)
    (hversion : b.version = numeral remote) (hread : readImage dir remote = some image) :
    image = b.image := by
  obtain ⟨name, hname, hget⟩ := Option.bind_eq_some_iff.mp hread
  obtain rfl : name = binName b.version := by
    rw [hversion]
    exact fileName_published hname
  exact congrArg File.content ((h.unaltered b hmem).image _ (get_eq_some hget))

/-- What was fetched is a release that was published. -/
def FetchesRelease (hash : List UInt8 → Digest) (history : List Build) (o : Observation) : Prop :=
  ∀ remote expected image, o = .fetched remote expected image →
    ∃ b ∈ history, b.version = numeral remote ∧ expected = hash b.image ∧ image = b.image

theorem Sound.check (h : Sound hash s) (hs : check s s.reader e = some (s', o)) :
    Sound hash s' ∧ s'.history = s.history ∧ ∀ x ∈ o, FetchesRelease hash s.history x := by
  have hreader := h.reader
  generalize hat : s.reader = reader at hs hreader
  unfold Deploy.check at hs
  split at hs
  · split at hs
    · next remote hread =>
      split at hs
      · cases hs
        exact ⟨h, rfl, nofun⟩
      · cases hs
        obtain ⟨b, hb, hversion⟩ := readVersion_eq h.records hread
        exact ⟨⟨h.records, h.fresh, h.progress, h.todo, b, List.mem_of_getLast? hb, hversion⟩, rfl,
          nofun⟩
    · cases hs
      exact ⟨h, rfl, nofun⟩
  · obtain ⟨b, hmem, hversion⟩ := hreader
    split at hs
    · next expected hread =>
      cases hs
      refine ⟨⟨h.records, h.fresh, h.progress, h.todo, b, hmem, hversion, ?_⟩, rfl, nofun⟩
      exact readExpected_eq h.records hmem hversion hread
    · cases hs
      exact ⟨⟨h.records, h.fresh, h.progress, h.todo, trivial⟩, rfl, nofun⟩
  · obtain ⟨b, hmem, hversion, hexpected⟩ := hreader
    split at hs
    · next image hread =>
      cases hs
      refine ⟨⟨h.records, h.fresh, h.progress, h.todo, trivial⟩, rfl, ?_⟩
      intro x hx
      rw [List.mem_singleton.mp hx]
      rintro remote expected image ⟨⟩
      exact ⟨b, hmem, hversion, hexpected, readImage_eq h.records hmem hversion hread⟩
    · cases hs
      exact ⟨⟨h.records, h.fresh, h.progress, h.todo, trivial⟩, rfl, nofun⟩
  · cases hs

/-! ## Whole runs -/

theorem sound_start : Sound hash start := by
  refine ⟨⟨nofun, nofun, nofun, ?_⟩, nofun, trivial, nofun, trivial⟩
  exact AList.lookup_empty versionName

theorem history_mono (hs : Publishes hash s e s') : ∀ b ∈ s.history, b ∈ s'.history := by
  cases hs with
  | renamed => exact fun b hb => List.mem_append_left _ hb
  | _ => exact fun b hb => hb

theorem Sound.step (hsound : Sound hash s) (hos : ∀ x ∈ os, FetchesRelease hash s.history x)
    (hbumped : Bumped s e) (hs : react hash s e = some (s', o)) :
    Sound hash s' ∧ ∀ x ∈ os ++ o, FetchesRelease hash s'.history x := by
  unfold react at hs
  cases hpublish : publish hash s s.phase e with
  | some next =>
    simp only [hpublish, Option.some.injEq, Prod.mk.injEq] at hs
    obtain ⟨rfl, rfl⟩ := hs
    have hmoves := publishes_of_publish hpublish
    refine ⟨hsound.publishes hbumped hmoves, fun x hx remote expected image heq => ?_⟩
    rw [List.append_nil] at hx
    obtain ⟨b, hb, hfetched⟩ := hos x hx remote expected image heq
    exact ⟨b, history_mono hmoves b hb, hfetched⟩
  | none =>
    simp only [hpublish] at hs
    obtain ⟨hsound', hhistory, ho⟩ := hsound.check hs
    refine ⟨hsound', fun x hx => ?_⟩
    rw [hhistory]
    rcases List.mem_append.mp hx with hx | hx
    · exact hos x hx
    · exact ho x hx

def five : Build :=
  { version := text "5", image := [1, 2], digits := by decide, nonempty := by decide,
    fits := by decide }

/-- A digest that is that of SHA-256 on the images of two releases. -/
def digests : StreamingDigest (List UInt8) Digest :=
  .ofTable
    [([1, 2],
      #v[0xa1, 0x28, 0x71, 0xfe, 0xe2, 0x10, 0xfb, 0x86, 0x19, 0x29, 0x1e, 0xae, 0xa1, 0x94, 0x58,
        0x1c, 0xbd, 0x25, 0x31, 0xe4, 0xb2, 0x37, 0x59, 0xd2, 0x25, 0xf6, 0x80, 0x69, 0x23, 0xf6,
        0x32, 0x22]),
      ([3],
      #v[0x08, 0x4f, 0xed, 0x08, 0xb9, 0x78, 0xaf, 0x4d, 0x7d, 0x19, 0x6a, 0x74, 0x46, 0xa8, 0x6b,
        0x58, 0x00, 0x9e, 0x63, 0x6b, 0x61, 0x1d, 0xb1, 0x62, 0x11, 0xb6, 0x5a, 0x9a, 0xad, 0xff,
        0x29, 0xc5])]
    (.replicate 32 0)

/-- What happens after `deploy`: a poll during the copy finds nothing, the next one all. -/
def publication : List Event :=
  [.wrote 1 true, .polled 4, .copied false, .copied false, .opened, .opened, .copied false,
    .opened, .renamed, .polled 4, .readChecksum, .finished, .readImage]

end

end Deploy
end GarageDoor
