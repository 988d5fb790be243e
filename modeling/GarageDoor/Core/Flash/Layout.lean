/-
The partitions of the flash, by address and by offset.

The partitions lie one after the other and fill the flash.  The regions of the bootloader's
memory map are the same partitions.
-/
import GarageDoor.Bootloader.MemoryMap
import GarageDoor.Core.Flash.Lifecycle

namespace GarageDoor
namespace Flash
namespace Layout

open Library

def flashBase : UInt32 := 0x10000000
def flashBytes : UInt32 := 2 * 1024 * 1024
def flashEnd : UInt32 := flashBase + flashBytes
def pageBytes : UInt32 := .ofNat Flash.pageBytes
def writeBytes : UInt32 := 1

def bootloaderBase : UInt32 := 0x10000000
def bootloaderBytes : UInt32 := 24 * 1024
def activeBase : UInt32 := 0x10006000
def activeBytes : UInt32 := .ofNat Flash.activeBytes
def dfuBase : UInt32 := 0x100C9000
def dfuBytes : UInt32 := 784 * 1024
def stateBase : UInt32 := 0x1018D000
def stateBytes : UInt32 := 4 * 1024
def spareBase : UInt32 := 0x1018E000
def spareBytes : UInt32 := flashEnd - spareBase

def boot2Bytes : UInt32 := 256

inductive Partition where
  | bootloader
  | active
  | dfu
  | state
  | spare
  deriving DecidableEq, Repr

namespace Partition

def baseAddress : Partition → UInt32
  | .bootloader => bootloaderBase
  | .active => activeBase
  | .dfu => dfuBase
  | .state => stateBase
  | .spare => spareBase

def offset (p : Partition) : UInt32 := p.baseAddress - flashBase

def lenBytes : Partition → UInt32
  | .bootloader => bootloaderBytes
  | .active => activeBytes
  | .dfu => dfuBytes
  | .state => stateBytes
  | .spare => spareBytes

def endAddress (p : Partition) : UInt32 := p.baseAddress + p.lenBytes

def endOffset (p : Partition) : UInt32 := p.offset + p.lenBytes

def pageCount (p : Partition) : UInt32 := p.lenBytes / pageBytes

def containsAddress (p : Partition) (addr : UInt32) : Bool :=
  addr ≥ p.baseAddress && addr < p.endAddress

def containsOffset (p : Partition) (offset : UInt32) : Bool :=
  offset ≥ p.offset && offset < p.endOffset

end Partition

def flashOffsetToAddress (offset : UInt32) : Option UInt32 :=
  if offset < flashBytes then some (flashBase + offset) else none

def addressToFlashOffset (addr : UInt32) : Option UInt32 :=
  if addr ≥ flashBase ∧ addr < flashEnd then some (addr - flashBase) else none

/-- The first partition that passes the test, in the order of the source. -/
def partitionFor (contains : Partition → Bool) : Option Partition :=
  if contains .bootloader then some .bootloader
  else if contains .active then some .active
  else if contains .dfu then some .dfu
  else if contains .state then some .state
  else if contains .spare then some .spare
  else none

def partitionForAddress (addr : UInt32) : Option Partition :=
  partitionFor fun p => p.containsAddress addr

def partitionForOffset (offset : UInt32) : Option Partition :=
  partitionFor fun p => p.containsOffset offset

def isPageAligned (addrOrOffset : UInt32) : Bool := addrOrOffset % pageBytes = 0

def activePageCount : UInt32 := activeBytes / pageBytes

def dfuPageCount : UInt32 := dfuBytes / pageBytes

def requiredStateWriteUnits (activeBytes : UInt32) : UInt32 := 2 + 4 * (activeBytes / pageBytes)

def stateWriteUnits : UInt32 := stateBytes / writeBytes

def maxAppBinaryBytes : UInt32 := activeBytes

def maxBootloaderBinaryBytes : UInt32 := bootloaderBytes - boot2Bytes

def canFitInDfu (binarySize : UInt32) : Bool := binarySize ≤ dfuBytes

def canFitInBootloader (binarySize : UInt32) : Bool := binarySize ≤ maxBootloaderBinaryBytes

/-! ## Spans -/

section

variable {p q : Partition} {addr offset : UInt32} {contains : Partition → Bool}

def Partition.span (p : Partition) : Span :=
  { start := p.baseAddress.toNat, length := p.lenBytes.toNat }

/-- Neither an address nor an offset of a partition overflows. -/
theorem endAddress_toNat (p : Partition) : p.endAddress.toNat = p.span.stop := by
  cases p <;> rfl

theorem offset_toNat (p : Partition) : p.offset.toNat + flashBase.toNat = p.span.start := by
  cases p <;> rfl

theorem endOffset_toNat (p : Partition) : p.endOffset.toNat + flashBase.toNat = p.span.stop := by
  cases p <;> rfl

theorem containsAddress_iff : p.containsAddress addr = true ↔ addr.toNat ∈ p.span := by
  rw [Partition.containsAddress, Bool.and_eq_true, decide_eq_true_eq, decide_eq_true_eq, ge_iff_le,
    UInt32.le_iff_toNat_le, UInt32.lt_iff_toNat_lt, endAddress_toNat]
  rfl

theorem containsOffset_iff :
    p.containsOffset offset = true ↔ offset.toNat + flashBase.toNat ∈ p.span := by
  have hstart := offset_toNat p
  have hstop := endOffset_toNat p
  rw [Partition.containsOffset, Bool.and_eq_true, decide_eq_true_eq, decide_eq_true_eq, ge_iff_le,
    UInt32.le_iff_toNat_le, UInt32.lt_iff_toNat_lt]
  show _ ↔ p.span.start ≤ _ ∧ _ < p.span.stop
  omega

/-- The first address of a partition, and the first after it. -/
def bounds : Partition → Nat × Nat
  | .bootloader => (0x10000000, 0x10006000)
  | .active => (0x10006000, 0x100C9000)
  | .dfu => (0x100C9000, 0x1018D000)
  | .state => (0x1018D000, 0x1018E000)
  | .spare => (0x1018E000, 0x10200000)

theorem mem_span {a : Nat} : a ∈ p.span ↔ (bounds p).1 ≤ a ∧ a < (bounds p).2 := by
  cases p <;> exact Iff.rfl

theorem span_unique {a : Nat} (hp : a ∈ p.span) (hq : a ∈ q.span) : p = q := by
  rw [mem_span] at hp hq
  cases p <;> cases q <;> simp only [bounds] at hp hq <;> first | rfl | omega

/-- The partitions fill the flash. -/
theorem exists_span_iff {a : Nat} :
    (∃ p : Partition, a ∈ p.span) ↔ flashBase.toNat ≤ a ∧ a < flashEnd.toNat := by
  have hbase : flashBase.toNat = 0x10000000 := rfl
  have hend : flashEnd.toNat = 0x10200000 := rfl
  rw [hbase, hend]
  constructor
  · rintro ⟨p, hp⟩
    rw [mem_span] at hp
    cases p <;> simp only [bounds] at hp <;> omega
  · intro h
    by_contra hnone
    have hout : ∀ p : Partition, ¬ ((bounds p).1 ≤ a ∧ a < (bounds p).2) := fun p hp =>
      hnone ⟨p, mem_span.mpr hp⟩
    have hbootloader := hout .bootloader
    have hactive := hout .active
    have hdfu := hout .dfu
    have hstate := hout .state
    have hspare := hout .spare
    simp only [bounds] at hbootloader hactive hdfu hstate hspare
    omega

theorem aligned_span (p : Partition) : p.span.Aligned pageBytes.toNat := by
  cases p <;> exact ⟨by decide, by decide⟩

/-- Where the test holds for one partition at most, the order does not matter. -/
theorem partitionFor_eq_some (hunique : ∀ p q, contains p = true → contains q = true → p = q) :
    partitionFor contains = some p ↔ contains p = true := by
  have hfound : ∀ q, partitionFor contains = some q → contains q = true := by
    intro q hq
    unfold partitionFor at hq
    split_ifs at hq <;> cases hq <;> assumption
  constructor
  · exact hfound p
  · intro hp
    cases hq : partitionFor contains with
    | some q => rw [hunique q p (hfound q hq) hp]
    | none =>
      unfold partitionFor at hq
      split_ifs at hq
      cases p <;> contradiction

theorem partitionForAddress_eq_some :
    partitionForAddress addr = some p ↔ addr.toNat ∈ p.span := by
  refine (partitionFor_eq_some fun p q hp hq => ?_).trans containsAddress_iff
  exact span_unique (containsAddress_iff.mp hp) (containsAddress_iff.mp hq)

theorem partitionForOffset_eq_some :
    partitionForOffset offset = some p ↔ offset.toNat + flashBase.toNat ∈ p.span := by
  refine (partitionFor_eq_some fun p q hp hq => ?_).trans containsOffset_iff
  exact span_unique (containsOffset_iff.mp hp) (containsOffset_iff.mp hq)

theorem isPageAligned_iff : isPageAligned addr = true ↔ pageBytes.toNat ∣ addr.toNat := by
  rw [isPageAligned, decide_eq_true_eq, ← UInt32.toNat_inj, UInt32.toNat_mod]
  exact Nat.dvd_iff_mod_eq_zero.symm

/-! ## Budgets -/

theorem pageCount_mul (p : Partition) : p.pageCount * pageBytes = p.lenBytes := by
  cases p <;> rfl

/-- An image that fits ACTIVE fits the DFU slot, which has a page to spare for the swap, and
the swap of its pages is recorded in the state partition. -/
theorem swap_fits {n : UInt32} (h : n ≤ maxAppBinaryBytes) :
    canFitInActive n.toNat = true ∧ canFitInDfu n = true ∧
    dfuPageCount = activePageCount + 1 ∧ requiredStateWriteUnits n ≤ stateWriteUnits := by
  have hn : n.toNat ≤ 798720 := UInt32.le_iff_toNat_le.mp h
  have hpages : (n / pageBytes).toNat = n.toNat / 4096 := UInt32.toNat_div n pageBytes
  have hunits : (requiredStateWriteUnits n).toNat = 2 + 4 * (n.toNat / 4096) := by
    rw [requiredStateWriteUnits, UInt32.toNat_add, UInt32.toNat_mul, hpages]
    show (2 + 4 * (n.toNat / 4096) % 2 ^ 32) % 2 ^ 32 = _
    omega
  refine ⟨decide_eq_true hn, decide_eq_true (UInt32.le_iff_toNat_le.mpr ?_), rfl,
    UInt32.le_iff_toNat_le.mpr ?_⟩
  · exact Nat.le_trans hn (by decide)
  · rw [hunits]
    show _ ≤ 4096
    omega

/-- A bootloader that fits has room after Boot2, in the region that the memory map has for it. -/
theorem canFitInBootloader_iff {n : UInt32} : canFitInBootloader n = true ↔
    (Bootloader.pinned .boot2).span.stop + n.toNat ≤ (Bootloader.pinned .flash).span.stop := by
  have hstart : (Bootloader.pinned .boot2).span.stop = 0x10000100 := rfl
  have hstop : (Bootloader.pinned .flash).span.stop = 0x10006000 := rfl
  have hmax : maxBootloaderBinaryBytes.toNat = 0x5F00 := rfl
  rw [canFitInBootloader, decide_eq_true_eq, UInt32.le_iff_toNat_le, hstart, hstop, hmax]
  omega

/-! ## Addresses and offsets -/

theorem flashOffsetToAddress_eq_some : flashOffsetToAddress offset = some addr ↔
    addr.toNat = offset.toNat + flashBase.toNat ∧ addr.toNat < flashEnd.toNat := by
  have hend : flashEnd.toNat = flashBytes.toNat + flashBase.toNat := rfl
  have hroom : flashEnd.toNat < 2 ^ 32 := flashEnd.toNat_lt
  unfold flashOffsetToAddress
  by_cases hoffset : offset < flashBytes
  · have hlt : offset.toNat < flashBytes.toNat := UInt32.lt_iff_toNat_lt.mp hoffset
    have hsum : (flashBase + offset).toNat = offset.toNat + flashBase.toNat := by
      rw [UInt32.toNat_add, Nat.add_comm, Nat.mod_eq_of_lt (by omega)]
    rw [if_pos hoffset, Option.some.injEq, ← UInt32.toNat_inj, hsum]
    omega
  · have hge : ¬ offset.toNat < flashBytes.toNat := fun hlt =>
      hoffset (UInt32.lt_iff_toNat_lt.mpr hlt)
    rw [if_neg hoffset]
    exact ⟨nofun, fun h => absurd h.2 (by omega)⟩

theorem addressToFlashOffset_eq_some : addressToFlashOffset addr = some offset ↔
    addr.toNat = offset.toNat + flashBase.toNat ∧ addr.toNat < flashEnd.toNat := by
  unfold addressToFlashOffset
  by_cases hin : addr ≥ flashBase ∧ addr < flashEnd
  · have hlow : flashBase.toNat ≤ addr.toNat := UInt32.le_iff_toNat_le.mp hin.1
    have hhigh : addr.toNat < flashEnd.toNat := UInt32.lt_iff_toNat_lt.mp hin.2
    rw [if_pos hin, Option.some.injEq, ← UInt32.toNat_inj,
      UInt32.toNat_sub_of_le _ _ (UInt32.le_iff_toNat_le.mpr hlow)]
    omega
  · rw [if_neg hin]
    refine ⟨nofun, fun h => absurd ⟨?_, UInt32.lt_iff_toNat_lt.mpr h.2⟩ hin⟩
    exact UInt32.le_iff_toNat_le.mpr (by omega)

theorem partitionForAddress_eq_none : partitionForAddress addr = none ↔
    ¬ (flashBase.toNat ≤ addr.toNat ∧ addr.toNat < flashEnd.toNat) := by
  rw [← exists_span_iff, not_exists, Option.eq_none_iff_forall_ne_some]
  exact forall_congr' fun p => not_congr partitionForAddress_eq_some

theorem partitionForOffset_eq_none : partitionForOffset offset = none ↔
    ¬ offset.toNat + flashBase.toNat < flashEnd.toNat := by
  have hspan : (∃ p : Partition, offset.toNat + flashBase.toNat ∈ p.span) ↔
      offset.toNat + flashBase.toNat < flashEnd.toNat :=
    exists_span_iff.trans (and_iff_right (Nat.le_add_left _ _))
  rw [← hspan, not_exists, Option.eq_none_iff_forall_ne_some]
  exact forall_congr' fun p => not_congr partitionForOffset_eq_some

/-! ## The memory map of the bootloader -/

/-- The partition that a region of `memory.x` is in. -/
def ofRegion : Bootloader.Partition → Partition
  | .boot2 | .flash => .bootloader
  | .active => .active
  | .dfu => .dfu
  | .state => .state

def regionBounds : Bootloader.Partition → Nat × Nat
  | .boot2 => (0x10000000, 0x10000100)
  | .flash => (0x10000100, 0x10006000)
  | .active => (0x10006000, 0x100C9000)
  | .dfu => (0x100C9000, 0x1018D000)
  | .state => (0x1018D000, 0x1018E000)

theorem mem_pinned_span {name : Bootloader.Partition} {a : Nat} :
    a ∈ (Bootloader.pinned name).span ↔ (regionBounds name).1 ≤ a ∧ a < (regionBounds name).2 := by
  cases name <;> exact Iff.rfl

theorem mem_pinned {a : Nat} : (∃ name, ofRegion name = p ∧ a ∈ (Bootloader.pinned name).span) ↔
    a ∈ p.span ∧ p ≠ .spare := by
  constructor
  · rintro ⟨name, rfl, ha⟩
    rw [mem_pinned_span] at ha
    rw [mem_span]
    cases name <;> simp only [ofRegion, regionBounds, bounds] at ha ⊢ <;>
      exact ⟨by omega, by decide⟩
  · rintro ⟨ha, hp⟩
    rw [mem_span] at ha
    cases p with
    | spare => exact absurd rfl hp
    | bootloader =>
      by_cases hboot2 : a < 0x10000100
      · exact ⟨.boot2, rfl, mem_pinned_span.mpr ⟨ha.1, hboot2⟩⟩
      · exact ⟨.flash, rfl, mem_pinned_span.mpr ⟨Nat.le_of_not_lt hboot2, ha.2⟩⟩
    | active => exact ⟨.active, rfl, mem_pinned_span.mpr ha⟩
    | dfu => exact ⟨.dfu, rfl, mem_pinned_span.mpr ha⟩
    | state => exact ⟨.state, rfl, mem_pinned_span.mpr ha⟩

/-- The address and the offset of a byte lead to one partition, or neither to any.  It is that
of the whole page, and the one that the memory map has there. -/
theorem partitions_agree (addr offset : UInt32) :
    (addressToFlashOffset addr = some offset ↔ flashOffsetToAddress offset = some addr) ∧
      (addressToFlashOffset addr = some offset →
        partitionForOffset offset = partitionForAddress addr) ∧
      (partitionForAddress addr = none ↔ addressToFlashOffset addr = none) ∧
      (partitionForOffset offset = none ↔ flashOffsetToAddress offset = none) ∧
      (∀ addr' : UInt32, addr'.toNat / pageBytes.toNat = addr.toNat / pageBytes.toNat →
        partitionForAddress addr' = partitionForAddress addr) ∧
      ∀ p, (partitionForAddress addr = some p ∧ p ≠ .spare ↔
        ∃ name, ofRegion name = p ∧ addr.toNat ∈ (Bootloader.pinned name).span) := by
  refine ⟨?_, ?_, ?_, ?_, ?_, ?_⟩
  · rw [addressToFlashOffset_eq_some, flashOffsetToAddress_eq_some]
  · intro h
    rw [addressToFlashOffset_eq_some] at h
    refine Option.ext fun p => ?_
    rw [partitionForOffset_eq_some, partitionForAddress_eq_some, h.1]
  · rw [partitionForAddress_eq_none, addressToFlashOffset, ite_eq_right_iff, ge_iff_le,
      UInt32.le_iff_toNat_le, UInt32.lt_iff_toNat_lt]
    simp only [reduceCtorEq, imp_false]
  · have hend : flashEnd.toNat = flashBytes.toNat + flashBase.toNat := rfl
    rw [partitionForOffset_eq_none, flashOffsetToAddress, ite_eq_right_iff,
      UInt32.lt_iff_toNat_lt, hend]
    simp only [reduceCtorEq, imp_false]
    omega
  · intro addr' hpage
    refine Option.ext fun p => ?_
    rw [partitionForAddress_eq_some, partitionForAddress_eq_some]
    exact ⟨fun h => (aligned_span p).mem_of_div_eq h hpage.symm,
      fun h => (aligned_span p).mem_of_div_eq h hpage⟩
  · intro p
    rw [mem_pinned, partitionForAddress_eq_some]

end

end Layout
end Flash
end GarageDoor
