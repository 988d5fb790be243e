/-
Publishing a release while a device polls.

The deploy script writes the image and its checksum, then renames the version file into
place, then prunes.  Any of its steps may fail, and a copy may be seen half done.  A device
that checks for an update reads the three files at moments of its own.
-/
import GarageDoor.Deploy.Prune
import GarageDoor.Library.Machine

namespace GarageDoor
namespace Deploy

open Library Ascii Ota

/-- `MAX_IMAGE_BYTES`. -/
def maxImageBytes : Nat := 780 * 1024

/-- What the script has before it publishes. -/
structure Build where
  version : Text
  image : List UInt8
  digits : Digits version
  nonempty : 0 < image.length
  fits : image.length ≤ maxImageBytes

/-- The files that the script writes, the last one to be renamed. -/
inductive Target where
  | image
  | checksum
  | version
  deriving DecidableEq, Repr

inductive Phase where
  | idle
  /-- In the `scp` or the `printf` that writes a file. -/
  | copying (build : Build) (target : Target)
  /-- In the `chmod` of a file. -/
  | opening (build : Build) (target : Target)
  | renaming (build : Build)
  /-- The names still to be removed. -/
  | pruning (todo : List Text)

/-- Where a device is in its check. -/
inductive Reader where
  | idle
  | versioned (remote : Nat)
  | digested (remote : Nat) (expected : Digest)

structure Site where
  dir : Directory
  phase : Phase
  reader : Reader
  /-- The releases published so far. -/
  history : List Build

inductive Event where
  | deploy (build : Build)
  /-- A copy is `written` bytes in; a new file is readable or not. -/
  | wrote (written : Nat) (readable : Bool)
  | copied (readable : Bool)
  | opened
  | renamed
  | removed (name : Text)
  | finished
  | failed
  /-- A device that runs the version `running` reads the version file. -/
  | polled (running : Nat)
  | readChecksum
  | readImage

inductive Observation where
  | fetched (remote : Nat) (expected : Digest) (image : List UInt8)
  deriving DecidableEq

def versionName : Text := text "version"
def versionTmp : Text := text "version.tmp"

def Build.versionFile (b : Build) : List UInt8 := b.version ++ [10]

/-- What `sha256sum` and `awk` leave of the digest. -/
def Build.checksumFile (hash : List UInt8 → Digest) (b : Build) : List UInt8 :=
  Hex.encode (hash b.image).toList ++ [10]

def Target.name (b : Build) : Target → Text
  | .image => binName b.version
  | .checksum => shaName b.version
  | .version => versionTmp

def Target.content (hash : List UInt8 → Digest) (b : Build) : Target → List UInt8
  | .image => b.image
  | .checksum => b.checksumFile hash
  | .version => b.versionFile

/-- What comes after the copy of a file. -/
def afterCopy (b : Build) : Target → Phase
  | .image => .copying b .checksum
  | .checksum => .opening b .image
  | .version => .opening b .version

def afterOpen (b : Build) : Target → Phase
  | .image => .opening b .checksum
  | .checksum => .copying b .version
  | .version => .renaming b

/-- Writes to a file that may be there; its mode stays. -/
def write (dir : Directory) (name : Text) (content : List UInt8) (readable : Bool) : Directory :=
  dir.insert name
    { content, readable := ((dir.lookup name).map File.readable).getD readable }

/-- `chmod 644`. -/
def chmod (dir : Directory) (name : Text) : Option Directory :=
  (dir.lookup name).map fun f => dir.insert name { f with readable := true }

/-- `mv -f`. -/
def rename (dir : Directory) (source target : Text) : Option Directory :=
  (dir.lookup source).map fun f => (dir.erase source).insert target f

/-- What the web server answers with status 200. -/
def get (dir : Directory) (name : Text) : Option (List UInt8) :=
  match dir.lookup name with
  | some f => if f.readable then some f.content else none
  | none => none

/-- The content of a small file. -/
def getSmall (dir : Directory) (name : Text) (maxBytes : Nat) : Option (List UInt8) :=
  (get dir name).filter fun content => content.length ≤ maxBytes

def readVersion (dir : Directory) : Option Nat :=
  (getSmall dir versionName versionMaxBytes).bind parseVersion

def readExpected (dir : Directory) (remote : Nat) : Option Digest :=
  (fileName remote ".bin.sha256").bind fun name =>
    (getSmall dir name shaMaxBytes).bind parseSha256Hex

def readImage (dir : Directory) (remote : Nat) : Option (List UInt8) :=
  (fileName remote ".bin").bind (get dir)

section

variable (hash : List UInt8 → Digest)

/-- A step of the script. -/
def publish (s : Site) : Phase → Event → Option Site
  | .idle, .deploy b => some { s with phase := .copying b .image }
  | .copying b target, .wrote written readable =>
    let content := (target.content hash b).take written
    some { s with dir := write s.dir (target.name b) content readable }
  | .copying b target, .copied readable =>
    let dir := write s.dir (target.name b) (target.content hash b) readable
    some { s with phase := afterCopy b target, dir }
  | .opening b target, .opened =>
    (chmod s.dir (target.name b)).map fun dir => { s with phase := afterOpen b target, dir }
  | .renaming b, .renamed =>
    (rename s.dir versionTmp versionName).map fun dir =>
      { s with phase := .pruning (prune b.version dir), history := s.history ++ [b], dir }
  | .pruning todo, .removed name =>
    if todo.contains name then
      some { s with phase := .pruning (todo.erase name), dir := s.dir.erase name }
    else
      none
  | .pruning [], .finished => some { s with phase := .idle }
  | .idle, .failed => none
  | _, .failed => some { s with phase := .idle }
  | _, _ => none

/-- A step of the device; a file that is missing or malformed ends the check. -/
def check (s : Site) : Reader → Event → Option (Site × List Observation)
  | .idle, .polled running =>
    match readVersion s.dir with
    | some remote =>
      match Ota.decide running remote with
      | .skip => some (s, [])
      | .update => some ({ s with reader := .versioned remote }, [])
    | none => some (s, [])
  | .versioned remote, .readChecksum =>
    match readExpected s.dir remote with
    | some expected => some ({ s with reader := .digested remote expected }, [])
    | none => some ({ s with reader := .idle }, [])
  | .digested remote expected, .readImage =>
    match readImage s.dir remote with
    | some image => some ({ s with reader := .idle }, [.fetched remote expected image])
    | none => some ({ s with reader := .idle }, [])
  | _, _ => none

def react (s : Site) (e : Event) : Option (Site × List Observation) :=
  match publish hash s s.phase e with
  | some s => some (s, [])
  | none => check s s.reader e

def start : Site := { dir := ∅, phase := .idle, reader := .idle, history := [] }

def site : Machine Site Event Observation where
  start := start
  step := react hash

end

/-! ## Files -/

section

variable {dir dir' : Directory} {name other source target : Text} {content : List UInt8}
  {readable : Bool} {f : File}

theorem chmod_eq_some : chmod dir name = some dir' ↔
    ∃ f, dir.lookup name = some f ∧ dir' = dir.insert name { f with readable := true } := by
  rw [chmod, Option.map_eq_some_iff]
  exact exists_congr fun f => and_congr_right fun _ => eq_comm

theorem rename_eq_some : rename dir source target = some dir' ↔
    ∃ f, dir.lookup source = some f ∧ dir' = (dir.erase source).insert target f := by
  rw [rename, Option.map_eq_some_iff]
  exact exists_congr fun f => and_congr_right fun _ => eq_comm

theorem get_of_lookup (h : dir.lookup name = some { content, readable := true }) :
    get dir name = some content := by
  simp only [get, h, if_true]

theorem get_eq_some (h : get dir name = some content) :
    dir.lookup name = some { content, readable := true } := by
  unfold get at h
  cases hlookup : dir.lookup name with
  | none => simp [hlookup] at h
  | some f =>
    obtain ⟨c, r⟩ := f
    cases r with
    | false => simp [hlookup] at h
    | true =>
      simp only [hlookup, if_true, Option.some.injEq] at h
      rw [h]

end

/-! ## What the device goes by -/

/-- The file is there, complete, and the server may read it. -/
def Has (dir : Directory) (name : Text) (content : List UInt8) : Prop :=
  dir.lookup name = some { content, readable := true }

def Written (dir : Directory) (name : Text) (content : List UInt8) : Prop :=
  ∃ readable, dir.lookup name = some { content, readable }

structure Complete (hash : List UInt8 → Digest) (dir : Directory) (b : Build) : Prop where
  image : Has dir (binName b.version) b.image
  checksum : Has dir (shaName b.version) (b.checksumFile hash)

/-- What is there of a release is what was published. -/
structure Unaltered (hash : List UInt8 → Digest) (dir : Directory) (b : Build) : Prop where
  image : ∀ f, dir.lookup (binName b.version) = some f →
    f = { content := b.image, readable := true }
  checksum : ∀ f, dir.lookup (shaName b.version) = some f →
    f = { content := b.checksumFile hash, readable := true }

/-- The names of the files that were published. -/
def Published (history : List Build) (name : Text) : Prop :=
  name = versionName ∨ ∃ b ∈ history, name = binName b.version ∨ name = shaName b.version

structure Records (hash : List UInt8 → Digest) (dir : Directory) (history : List Build) :
    Prop where
  canonical : ∀ b ∈ history, Canonical b.version
  unaltered : ∀ b ∈ history, Unaltered hash dir b
  last : ∀ b, history.getLast? = some b → Complete hash dir b
  version : dir.lookup versionName =
    history.getLast?.map fun b => { content := b.versionFile, readable := true }

section

variable {hash : List UInt8 → Digest} {dir dir' : Directory} {history : List Build}
  {b b' : Build} {name base : Text} {f : File}

theorem binName_ne (h : ¬ text ".bin" <:+ name) : binName base ≠ name := by
  rintro rfl
  exact h (List.suffix_append _ _)

theorem shaName_ne (h : ¬ text ".bin.sha256" <:+ name) : shaName base ≠ name := by
  rintro rfl
  exact h (List.suffix_append _ _)

theorem binName_ne_version : binName base ≠ versionName := binName_ne (by decide)

theorem shaName_ne_version : shaName base ≠ versionName := shaName_ne (by decide)

theorem binName_ne_tmp : binName base ≠ versionTmp := binName_ne (by decide)

theorem shaName_ne_tmp : shaName base ≠ versionTmp := shaName_ne (by decide)

/-- The temporary file is none of those that were published. -/
theorem not_published_tmp (history : List Build) : ¬ Published history versionTmp := by
  rintro (h | ⟨b, -, h | h⟩)
  · exact absurd h (by decide)
  · exact binName_ne_tmp h.symm
  · exact shaName_ne_tmp h.symm

/-- Neither are the files of a version that was not published. -/
theorem not_published_target (hfresh : ∀ b' ∈ history, b'.version ≠ b.version) (target : Target) :
    ¬ Published history (target.name b) := by
  cases target with
  | image =>
    rintro (h | ⟨b', hb', h | h⟩)
    · exact binName_ne_version h
    · exact hfresh b' hb' (binName_inj h).symm
    · exact binName_ne_shaName _ _ h
  | checksum =>
    rintro (h | ⟨b', hb', h | h⟩)
    · exact shaName_ne_version h
    · exact binName_ne_shaName _ _ h.symm
    · exact hfresh b' hb' (shaName_inj h).symm
  | version => exact not_published_tmp history

theorem Complete.unaltered (h : Complete hash dir b) : Unaltered hash dir b :=
  ⟨fun _ hf => Option.some.inj (hf.symm.trans h.image),
    fun _ hf => Option.some.inj (hf.symm.trans h.checksum)⟩

/-- Nothing happens to the published files. -/
theorem Records.frame (h : Records hash dir history)
    (hsame : ∀ name, Published history name → dir'.lookup name = dir.lookup name) :
    Records hash dir' history := by
  have hbin : ∀ b ∈ history, dir'.lookup (binName b.version) = dir.lookup (binName b.version) :=
    fun b hb => hsame _ (.inr ⟨b, hb, .inl rfl⟩)
  have hsha : ∀ b ∈ history, dir'.lookup (shaName b.version) = dir.lookup (shaName b.version) :=
    fun b hb => hsame _ (.inr ⟨b, hb, .inr rfl⟩)
  refine ⟨h.canonical, fun b hb => ⟨fun f hf => ?_, fun f hf => ?_⟩, fun b hb => ⟨?_, ?_⟩, ?_⟩
  · exact (h.unaltered b hb).image f ((hbin b hb).symm.trans hf)
  · exact (h.unaltered b hb).checksum f ((hsha b hb).symm.trans hf)
  · exact (hbin b (List.mem_of_getLast? hb)).trans (h.last b hb).image
  · exact (hsha b (List.mem_of_getLast? hb)).trans (h.last b hb).checksum
  · exact (hsame _ (.inl rfl)).trans h.version

theorem Records.insert (h : Records hash dir history) (hname : ¬ Published history name)
    (f : File) : Records hash (dir.insert name f) history := by
  refine h.frame fun other hother => AList.lookup_insert_ne ?_
  rintro rfl
  exact hname hother

theorem lookup_erase_some {other : Text} (h : (dir.erase name).lookup other = some f) :
    dir.lookup other = some f := by
  by_cases heq : other = name
  · rw [heq, AList.lookup_erase] at h
    cases h
  · rwa [AList.lookup_erase_ne heq] at h

/-- A file other than those of the current release goes. -/
theorem Records.erase (h : Records hash dir history) (hversion : name ≠ versionName)
    (hlast : ∀ b, history.getLast? = some b → name ≠ binName b.version ∧ name ≠ shaName b.version) :
    Records hash (dir.erase name) history := by
  refine ⟨h.canonical, fun b hb => ⟨fun f hf => ?_, fun f hf => ?_⟩, fun b hb => ⟨?_, ?_⟩, ?_⟩
  · exact (h.unaltered b hb).image f (lookup_erase_some hf)
  · exact (h.unaltered b hb).checksum f (lookup_erase_some hf)
  · exact (AList.lookup_erase_ne (hlast b hb).1.symm).trans (h.last b hb).image
  · exact (AList.lookup_erase_ne (hlast b hb).2.symm).trans (h.last b hb).checksum
  · exact (AList.lookup_erase_ne hversion.symm).trans h.version

/-- Renaming the version file into place publishes what is complete. -/
theorem Records.rename (h : Records hash dir history) (hcanonical : Canonical b.version)
    (hcomplete : Complete hash dir b) (htmp : Has dir versionTmp b.versionFile)
    (hrename : rename dir versionTmp versionName = some dir') :
    Records hash dir' (history ++ [b]) ∧ Complete hash dir' b := by
  obtain ⟨f, hf, rfl⟩ := rename_eq_some.mp hrename
  obtain rfl : f = { content := b.versionFile, readable := true } :=
    Option.some.inj (hf.symm.trans htmp)
  have hsame : ∀ name, name ≠ versionName → name ≠ versionTmp →
      ((dir.erase versionTmp).insert versionName
        { content := b.versionFile, readable := true }).lookup name = dir.lookup name := by
    intro name hversion htmp
    rw [AList.lookup_insert_ne hversion, AList.lookup_erase_ne htmp]
  have hbin : ∀ b : Build, _ := fun b => hsame (binName b.version) binName_ne_version binName_ne_tmp
  have hsha : ∀ b : Build, _ := fun b => hsame (shaName b.version) shaName_ne_version shaName_ne_tmp
  have hnew := (⟨(hbin b).trans hcomplete.image, (hsha b).trans hcomplete.checksum⟩ :
    Complete hash _ b)
  refine ⟨⟨?_, ?_, ?_, ?_⟩, hnew⟩
  · intro b' hb'
    rcases List.mem_append.mp hb' with hb' | hb'
    · exact h.canonical b' hb'
    · rw [List.mem_singleton.mp hb']
      exact hcanonical
  · intro b' hb'
    rcases List.mem_append.mp hb' with hb' | hb'
    · exact ⟨fun f hf => (h.unaltered b' hb').image f ((hbin b').symm.trans hf),
        fun f hf => (h.unaltered b' hb').checksum f ((hsha b').symm.trans hf)⟩
    · rw [List.mem_singleton.mp hb']
      exact hnew.unaltered
  · intro b' hb'
    rw [List.getLast?_concat] at hb'
    cases hb'
    exact hnew
  · rw [AList.lookup_insert, List.getLast?_concat]
    rfl

end

end Deploy
end GarageDoor
