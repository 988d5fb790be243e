/-
The memory map of the bootloader, as its build checks it.

The build reads origin and length of each region from `memory.x` and refuses a table
that one of the checks panics on.  What the table is for is that `embassy-boot` may
swap ACTIVE and DFU page by page.
-/
import GarageDoor.Library.Span

namespace GarageDoor
namespace Bootloader

open Library

def flashBase : UInt32 := 0x10000000
def flashBytes : UInt32 := 2 * 1024 * 1024
def flashEnd : UInt32 := flashBase + flashBytes
def pageBytes : UInt32 := 4096

/-- The names in `PARTITIONS`. -/
inductive Partition
  | boot2
  | flash
  | active
  | dfu
  | state
  deriving DecidableEq, Repr

def partitions : List Partition := [.boot2, .flash, .active, .dfu, .state]

structure Region where
  origin : UInt32
  length : UInt32
  deriving DecidableEq, Repr

/-- The part of the parsed table that the checks look up. -/
abbrev Regions := Partition → Option Region

/-- What makes the build panic, with what its message shows. -/
inductive Refusal
  | missing (name : Partition)
  | noEntry (name : Partition)
  | addOverflow
  | pastFlashEnd (name : Partition) (stop : UInt32)
  | originUnaligned (name : Partition) (origin : UInt32)
  | lengthUnaligned (name : Partition) (length : UInt32)
  | dfuOrigin (dfu activeOrigin activeLength : UInt32)
  | dfuLength (dfu activeLength : UInt32)
  | overlaps (first second : Partition)
  deriving DecidableEq, Repr

/-- What an addition past the `u32` range does in a build script. -/
inductive Overflow
  | panics
  | wraps
  deriving DecidableEq, Repr

def add (mode : Overflow) (a b : UInt32) : Except Refusal UInt32 :=
  match mode with
  | .panics => if a.toNat + b.toNat < 2 ^ 32 then .ok (a + b) else .error .addOverflow
  | .wraps => .ok (a + b)

def panicIf (c : Prop) [Decidable c] (refusal : Refusal) : Except Refusal Unit :=
  if c then .error refusal else .ok ()

/-- `regions[name]`. -/
def Regions.index (regions : Regions) (name : Partition) : Except Refusal Region :=
  match regions name with
  | some region => .ok region
  | none => .error (.noEntry name)

def validatePartitionsPresent (regions : Regions) : Except Refusal Unit :=
  partitions.forM fun name => panicIf (regions name = none) (.missing name)

def validateWithinFlash (mode : Overflow) (regions : Regions) : Except Refusal Unit :=
  partitions.forM fun name => do
    let region ← regions.index name
    let stop ← add mode region.origin region.length
    panicIf (flashEnd < stop) (.pastFlashEnd name stop)

def validatePageAlignment (regions : Regions) : Except Refusal Unit :=
  [Partition.active, .dfu, .state].forM fun name => do
    let region ← regions.index name
    panicIf (region.origin % pageBytes ≠ 0) (.originUnaligned name region.origin)
    panicIf (region.length % pageBytes ≠ 0) (.lengthUnaligned name region.length)

def validateDfuLayout (mode : Overflow) (regions : Regions) : Except Refusal Unit := do
  let active ← regions.index .active
  let dfu ← regions.index .dfu
  let activeEnd ← add mode active.origin active.length
  panicIf (dfu.origin ≠ activeEnd) (.dfuOrigin dfu.origin active.origin active.length)
  let onePageMore ← add mode active.length pageBytes
  panicIf (dfu.length ≠ onePageMore) (.dfuLength dfu.length active.length)

/-- The neighbours of `windows(2)` are a list and its tail side by side. -/
def validateNoOverlap (mode : Overflow) (regions : Regions) : Except Refusal Unit := do
  let entries ← partitions.mapM fun name => do
    let region ← regions.index name
    pure (name, region)
  let ordered := entries.insertionSort fun a b => a.2.origin ≤ b.2.origin
  (ordered.zip ordered.tail).forM fun (first, second) => do
    let stop ← add mode first.2.origin first.2.length
    panicIf (second.2.origin < stop) (.overlaps first.1 second.1)

/-- `validate` on the parsed table, without the linker symbols. -/
def validateRegions (mode : Overflow) (regions : Regions) : Except Refusal Unit := do
  validatePartitionsPresent regions
  validateWithinFlash mode regions
  validatePageAlignment regions
  validateDfuLayout mode regions
  validateNoOverlap mode regions

/-! ## What the table is for -/

def Region.span (r : Region) : Span := { start := r.origin.toNat, length := r.length.toNat }

/-- The addresses of a partition, none for one that the table lacks. -/
def Regions.span (regions : Regions) (name : Partition) : Span :=
  match regions name with
  | some region => region.span
  | none => { start := 0, length := 0 }

structure Sound (regions : Regions) : Prop where
  present : ∀ name, regions name ≠ none
  inFlash : ∀ name, flashBase.toNat ≤ (regions.span name).start ∧
    (regions.span name).stop ≤ flashEnd.toNat
  disjoint : ∀ name other, name ≠ other → (regions.span name).Disjoint (regions.span other)
  aligned : ∀ name, name = .active ∨ name = .dfu ∨ name = .state →
    (regions.span name).Aligned pageBytes.toNat
  dfuStart : (regions.span .dfu).start = (regions.span .active).stop
  dfuLength : (regions.span .dfu).length = (regions.span .active).length + pageBytes.toNat
  /-- Whole pages of ACTIVE and DFU may be moved without touching another partition. -/
  swappable : ∀ name, name = .active ∨ name = .dfu → ∀ other, other ≠ .active ∧ other ≠ .dfu →
    ∀ a ∈ regions.span name, ∀ b, b / pageBytes.toNat = a / pageBytes.toNat →
      b ∉ regions.span other

/-- What the checks leave open. -/
def StartsInFlash (regions : Regions) : Prop :=
  ∀ name, flashBase.toNat ≤ (regions.span name).start ∧ (regions.span name).stop < 2 ^ 32

/-! ## The checks one by one -/

section

variable {mode : Overflow} {regions : Regions} {map : Partition → Region} {ε α β : Type}

theorem mem_partitions (name : Partition) : name ∈ partitions := by cases name <;> decide

theorem bind_eq_ok {x : Except ε α} {f : α → Except ε β} {b : β} :
    x >>= f = .ok b ↔ ∃ a, x = .ok a ∧ f a = .ok b := by
  cases x with
  | error e => exact ⟨fun h => (nomatch h), fun ⟨_, h, _⟩ => (nomatch h)⟩
  | ok a => exact ⟨fun h => ⟨a, rfl, h⟩, fun ⟨_, rfl, h⟩ => h⟩

theorem forM_eq_ok {f : α → Except ε Unit} {l : List α} :
    l.forM f = .ok () ↔ ∀ a ∈ l, f a = .ok () := by
  induction l with
  | nil => exact ⟨fun _ _ ha => (List.not_mem_nil ha).elim, fun _ => rfl⟩
  | cons a l ih =>
    show f a >>= (fun _ => l.forM f) = .ok () ↔ _
    rw [bind_eq_ok, List.forall_mem_cons, ← ih]
    exact ⟨fun ⟨(), h, h'⟩ => ⟨h, h'⟩, fun ⟨h, h'⟩ => ⟨(), h, h'⟩⟩

theorem panicIf_eq_ok {c : Prop} [Decidable c] {refusal : Refusal} :
    panicIf c refusal = .ok () ↔ ¬ c := by
  unfold panicIf
  split <;> simp [*]

/-- In either mode a sum that fits is the sum. -/
theorem add_bind_ok {a b : UInt32} {f : UInt32 → Except Refusal β} {c : β}
    (hfits : a.toNat + b.toNat < 2 ^ 32) (h : add mode a b >>= f = .ok c) :
    ∃ sum, sum.toNat = a.toNat + b.toNat ∧ f sum = .ok c := by
  have hadd : add mode a b = .ok (a + b) := by
    cases mode with
    | panics => exact if_pos hfits
    | wraps => rfl
  rw [hadd] at h
  refine ⟨a + b, ?_, h⟩
  rw [UInt32.toNat_add, Nat.mod_eq_of_lt hfits]

/-- A table with an entry for each name. -/
def present (map : Partition → Region) : Regions := fun name => some (map name)

theorem validatePartitionsPresent_ok (h : validatePartitionsPresent regions = .ok ()) :
    ∃ map, regions = present map := by
  have hsome : ∀ name, regions name ≠ none := fun name =>
    panicIf_eq_ok.mp (forM_eq_ok.mp h name (mem_partitions name))
  choose map hmap using fun name => Option.ne_none_iff_exists'.mp (hsome name)
  exact ⟨map, funext hmap⟩

theorem index_bind (name : Partition) (f : Region → Except Refusal β) :
    (present map).index name >>= f = f (map name) := rfl

/-- The additions of the checks give the ends of the regions. -/
def Fits (map : Partition → Region) : Prop := ∀ name, (map name).span.stop < 2 ^ 32

theorem validateWithinFlash_ok (hfits : Fits map)
    (h : validateWithinFlash mode (present map) = .ok ()) (name : Partition) :
    (map name).span.stop ≤ flashEnd.toNat := by
  have hname := forM_eq_ok.mp h name (mem_partitions name)
  rw [index_bind] at hname
  obtain ⟨stop, hstop, hname⟩ := add_bind_ok (hfits name) hname
  have hle := panicIf_eq_ok.mp hname
  rw [UInt32.lt_iff_toNat_lt, hstop] at hle
  exact Nat.le_of_not_lt hle

theorem dvd_of_mod_eq_zero {a b : UInt32} (h : a % b = 0) : b.toNat ∣ a.toNat := by
  have hmod := congrArg UInt32.toNat h
  rw [UInt32.toNat_mod] at hmod
  exact Nat.dvd_of_mod_eq_zero hmod

theorem validatePageAlignment_ok (h : validatePageAlignment (present map) = .ok ())
    {name : Partition} (hname : name = .active ∨ name = .dfu ∨ name = .state) :
    (map name).span.Aligned pageBytes.toNat := by
  have hmem : name ∈ [Partition.active, .dfu, .state] := by
    rcases hname with rfl | rfl | rfl <;> decide
  have hchecks := forM_eq_ok.mp h name hmem
  rw [index_bind] at hchecks
  obtain ⟨_, horigin, hlength⟩ := bind_eq_ok.mp hchecks
  have hstart : pageBytes.toNat ∣ (map name).origin.toNat :=
    dvd_of_mod_eq_zero (not_not.mp (panicIf_eq_ok.mp horigin))
  have hlen : pageBytes.toNat ∣ (map name).length.toNat :=
    dvd_of_mod_eq_zero (not_not.mp (panicIf_eq_ok.mp hlength))
  exact ⟨hstart, Nat.dvd_add hstart hlen⟩

theorem validateDfuLayout_ok (hfits : Fits map)
    (hlast : (map .active).span.stop ≤ flashEnd.toNat)
    (h : validateDfuLayout mode (present map) = .ok ()) :
    (map .dfu).span.start = (map .active).span.stop ∧
      (map .dfu).span.length = (map .active).span.length + pageBytes.toNat := by
  unfold validateDfuLayout at h
  rw [index_bind, index_bind] at h
  obtain ⟨stop, hstop, h⟩ := add_bind_ok (hfits .active) h
  obtain ⟨_, horigin, h⟩ := bind_eq_ok.mp h
  have hroom : (map .active).length.toNat + pageBytes.toNat < 2 ^ 32 := by
    have hlength : (map .active).length.toNat ≤ (map .active).span.stop := Nat.le_add_left _ _
    have hend : flashEnd.toNat + pageBytes.toNat < 2 ^ 32 := by decide
    omega
  obtain ⟨onePageMore, hmore, hlength⟩ := add_bind_ok hroom h
  constructor
  · have heq := not_not.mp (panicIf_eq_ok.mp horigin)
    show (map .dfu).origin.toNat = _
    rw [heq, hstop]
    rfl
  · have heq := not_not.mp (panicIf_eq_ok.mp hlength)
    show (map .dfu).length.toNat = _
    rw [heq, hmore]
    rfl

/-- The entries that are sorted. -/
def entries (map : Partition → Region) : List (Partition × Region) :=
  partitions.map fun name => (name, map name)

theorem mem_entries {entry : Partition × Region} (h : entry ∈ entries map) :
    entry.2 = map entry.1 := by
  obtain ⟨name, -, rfl⟩ := List.mem_map.mp h
  rfl

/-- Neighbours in the order of origins are checked, and any two partitions are apart. -/
theorem validateNoOverlap_ok (hfits : Fits map)
    (h : validateNoOverlap mode (present map) = .ok ()) {name other : Partition}
    (hne : name ≠ other) : (map name).span.Disjoint (map other).span := by
  obtain ⟨found, hfound, h⟩ := bind_eq_ok.mp h
  have hentries : found = entries map := (Except.ok.inj hfound).symm
  subst hentries
  let ordered := (entries map).insertionSort fun a b => a.2.origin ≤ b.2.origin
  have hperm : ordered.Perm (entries map) := List.perm_insertionSort _ _
  have hwindows : ∀ p ∈ ordered.zip ordered.tail, p.1.2.span.Before p.2.2.span := by
    intro p hp
    have hmem : p.1 ∈ entries map := hperm.mem_iff.mp (List.of_mem_zip hp).1
    have hfit : p.1.2.span.stop < 2 ^ 32 := mem_entries hmem ▸ hfits p.1.1
    obtain ⟨stop, hstop, hle⟩ := add_bind_ok hfit (forM_eq_ok.mp h p hp)
    have hle := panicIf_eq_ok.mp hle
    rw [UInt32.lt_iff_toNat_lt, hstop] at hle
    exact Nat.le_of_not_lt hle
  have hmem : ∀ name, (name, map name) ∈ entries map := fun name =>
    List.mem_map.mpr ⟨name, mem_partitions name, rfl⟩
  exact Span.disjoint_of_windows (fun entry => entry.2.span) hperm hwindows (hmem name)
    (hmem other) fun heq => hne (congrArg Prod.fst heq)

end

/-! ## The checks together -/

section

variable {mode : Overflow} {regions : Regions}

/-- A table that is accepted is sound exactly when its partitions start in flash and do
not run past the last address. -/
theorem sound_iff_startsInFlash (h : validateRegions mode regions = .ok ()) :
    Sound regions ↔ StartsInFlash regions := by
  obtain ⟨_, hpresent, h⟩ := bind_eq_ok.mp h
  obtain ⟨_, hwithin, h⟩ := bind_eq_ok.mp h
  obtain ⟨_, haligned, h⟩ := bind_eq_ok.mp h
  obtain ⟨_, hdfu, hoverlap⟩ := bind_eq_ok.mp h
  obtain ⟨map, rfl⟩ := validatePartitionsPresent_ok hpresent
  constructor
  · intro hsound name
    have hflash := hsound.inFlash name
    have hend : flashEnd.toNat < 2 ^ 32 := flashEnd.toNat_lt
    exact ⟨hflash.1, lt_of_le_of_lt hflash.2 hend⟩
  · intro hstarts
    have hfits : Fits map := fun name => (hstarts name).2
    have hinside := validateWithinFlash_ok hfits hwithin
    have hdisjoint : ∀ name other, name ≠ other →
        (map name).span.Disjoint (map other).span := fun name other hne =>
      validateNoOverlap_ok hfits hoverlap hne
    have haligned : ∀ name, name = .active ∨ name = .dfu ∨ name = .state →
        (map name).span.Aligned pageBytes.toNat := fun name hname =>
      validatePageAlignment_ok haligned hname
    obtain ⟨hdfuStart, hdfuLength⟩ := validateDfuLayout_ok hfits (hinside .active) hdfu
    exact {
      present := fun name => Option.some_ne_none _
      inFlash := fun name => ⟨(hstarts name).1, hinside name⟩
      disjoint := hdisjoint
      aligned := haligned
      dfuStart := hdfuStart
      dfuLength := hdfuLength
      swappable := by
        intro name hname other ⟨hactive, hdfu⟩ a ha b hb
        have hne : name ≠ other := by
          rcases hname with rfl | rfl
          · exact fun h => hactive h.symm
          · exact fun h => hdfu h.symm
        have hname' : name = .active ∨ name = .dfu ∨ name = .state := by
          rcases hname with h | h
          · exact .inl h
          · exact .inr (.inl h)
        exact (haligned name hname').not_mem_of_div_eq (hdisjoint name other hne) ha hb }

/-- The regions of `memory.x`. -/
def pinned : Partition → Region
  | .boot2 => { origin := 0x10000000, length := 0x100 }
  | .flash => { origin := 0x10000100, length := 24 * 1024 - 0x100 }
  | .active => { origin := 0x10006000, length := 780 * 1024 }
  | .dfu => { origin := 0x100C9000, length := 784 * 1024 }
  | .state => { origin := 0x1018D000, length := 4 * 1024 }

theorem sound_pinned : Sound (present pinned) := by
  have haccepted : validateRegions .panics (present pinned) = .ok () := by decide
  refine (sound_iff_startsInFlash haccepted).mpr ?_
  intro name
  cases name <;> decide

/-- With BOOT2 at address 0 the checks still pass. -/
theorem accepts_boot2_below_flash :
    let regions := present fun name =>
      if name = .boot2 then { origin := 0, length := 0x100 } else pinned name
    validateRegions .panics regions = .ok () ∧ validateRegions .wraps regions = .ok () ∧
      ¬ Sound regions := by
  refine ⟨by decide, by decide, fun hsound => ?_⟩
  have hlow := (hsound.inFlash .boot2).1
  exact absurd hlow (by decide)

end

end Bootloader
end GarageDoor
