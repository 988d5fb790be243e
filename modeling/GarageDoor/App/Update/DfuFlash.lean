/-
The flash adapter under the updater.

Each operation reloads the watchdog and records how long it blocked both cores; an erase
goes page by page.  The blocking driver is a parameter, and its calls say how long they
take.  The blocking operations are kept in a log.
-/
import GarageDoor.Library.Loop

namespace GarageDoor
namespace Update

open Library

def eraseSize : UInt32 := 4096

/-- `TIMEOUT` of the watchdog, in microseconds. -/
def timeoutMicros : Nat := 8 * 1000 * 1000

/-- What a call of the driver returns, and the microseconds it takes. -/
structure Driver (φ ε : Type) where
  blockingRead : φ → UInt32 → Nat → (Except ε (List UInt8) × Nat) × φ
  blockingErase : φ → UInt32 → UInt32 → (Except ε Unit × Nat) × φ
  blockingWrite : φ → UInt32 → List UInt8 → (Except ε Unit × Nat) × φ
  unaligned : ε

/-- A blocking operation, and when the watchdog had been reloaded. -/
structure Window where
  fed : Nat
  start : Nat
  stop : Nat
  deriving DecidableEq, Repr

def Window.length (w : Window) : Nat := w.stop - w.start

structure DfuFlash (φ : Type) where
  flash : φ
  now : Nat
  fed : Nat
  maxWindowUs : UInt32
  log : List Window

namespace DfuFlash

variable {φ ε α : Type}

def new (flash : φ) (now : Nat) : DfuFlash φ :=
  { flash, now, fed := now, maxWindowUs := 0, log := [] }

def feed (s : DfuFlash φ) : DfuFlash φ := { s with fed := s.now }

/-- `as u32` keeps the low bits of the time. -/
def recordWindow (s : DfuFlash φ) (t0 : Nat) : DfuFlash φ :=
  let us := UInt32.ofNat (s.now - t0)
  { s with
    maxWindowUs := if s.maxWindowUs < us then us else s.maxWindowUs
    log := s.log ++ [{ fed := s.fed, start := t0, stop := s.now }] }

/-- A call of the driver, between a reload and the record of its time. -/
def timed (s : DfuFlash φ) (call : φ → (α × Nat) × φ) : α × DfuFlash φ :=
  let s := s.feed
  let t0 := s.now
  let ((result, took), flash) := call s.flash
  (result, { s with flash, now := t0 + took }.recordWindow t0)

end DfuFlash

/-- An address that `erase` accepts. -/
abbrev PageAddress : Type := { a : UInt32 // a % eraseSize = 0 }

namespace Driver

variable {φ ε : Type} (D : Driver φ ε)

def read (s : DfuFlash φ) (offset : UInt32) (length : Nat) :
    Except ε (List UInt8) × DfuFlash φ := s.timed fun flash => D.blockingRead flash offset length

def write (s : DfuFlash φ) (offset : UInt32) (bytes : List UInt8) :
    Except ε Unit × DfuFlash φ := s.timed fun flash => D.blockingWrite flash offset bytes

/-- Where the page at `addr` ends, or the erase. -/
def pageEnd (addr upto : UInt32) : UInt32 :=
  if upto < addr + eraseSize then upto else addr + eraseSize

theorem toNat_pageEnd {addr upto : UInt32} (haddr : addr % eraseSize = 0)
    (hto : upto % eraseSize = 0) (hlt : addr < upto) :
    (pageEnd addr upto).toNat = addr.toNat + 4096 ∧
      addr.toNat + 4096 ≤ upto.toNat ∧ pageEnd addr upto % eraseSize = 0 := by
  have haddr' : addr.toNat % 4096 = 0 := congrArg UInt32.toNat haddr
  have hto' : upto.toNat % 4096 = 0 := congrArg UInt32.toNat hto
  have hlt' := UInt32.lt_iff_toNat_lt.mp hlt
  have hbound := upto.toNat_lt
  have hsum : (addr + eraseSize).toNat = addr.toNat + 4096 := by
    rw [UInt32.toNat_add]
    exact Nat.mod_eq_of_lt (by show addr.toNat + 4096 < _; omega)
  have hend : pageEnd addr upto = addr + eraseSize := by
    refine if_neg ?_
    rw [UInt32.lt_iff_toNat_lt, hsum]
    omega
  rw [hend, ← UInt32.toNat_inj, UInt32.toNat_mod, hsum]
  refine ⟨rfl, by omega, ?_⟩
  show (addr.toNat + 4096) % 4096 = 0
  omega

/-- The loop of an erase, which feeds before each page. -/
def erasePage (upto : PageAddress) (s : DfuFlash φ × PageAddress) :
    (DfuFlash φ × PageAddress) ⊕ (Except ε Unit × DfuFlash φ) :=
  if hlt : s.2.1 < upto.1 then
    match s.1.timed fun flash => D.blockingErase flash s.2.1 (pageEnd s.2.1 upto.1) with
    | (.error e, s) => .inr (.error e, s)
    | (.ok (), next) =>
      .inl (next, ⟨pageEnd s.2.1 upto.1, (toNat_pageEnd s.2.2 upto.2 hlt).2.2⟩)
  else
    .inr (.ok (), s.1)

def eraseLoop (upto : PageAddress) :
    Loop (DfuFlash φ × PageAddress) (Except ε Unit × DfuFlash φ) where
  body := D.erasePage upto
  variant s := upto.1.toNat - s.2.1.toNat
  decreases := by
    intro s s' h
    unfold erasePage at h
    split at h
    · next hlt =>
      obtain ⟨hend, hle, -⟩ := toNat_pageEnd s.2.2 upto.2 hlt
      split at h
      · cases h
      · cases h
        dsimp only
        omega
    · cases h

def erase (s : DfuFlash φ) (start upto : UInt32) : Except ε Unit × DfuFlash φ :=
  if h : start % eraseSize = 0 ∧ upto % eraseSize = 0 then
    (D.eraseLoop ⟨upto, h.2⟩).run (s, ⟨start, h.1⟩)
  else
    (.error D.unaligned, s)

/-! ## An erase is its pages, one after the other -/

/-- Erases these pages in turn, up to the first that fails. -/
def eraseAll : List (UInt32 × UInt32) → DfuFlash φ → Except ε Unit × DfuFlash φ
  | [], s => (.ok (), s)
  | (start, stop) :: pages, s =>
    match s.timed fun flash => D.blockingErase flash start stop with
    | (.error e, s) => (.error e, s)
    | (.ok (), s) => eraseAll pages s

/-- Pages that follow each other from an address on. -/
def pagesFrom (start : Nat) : Nat → List (UInt32 × UInt32)
  | 0 => []
  | n + 1 => (UInt32.ofNat start, UInt32.ofNat (start + 4096)) :: pagesFrom (start + 4096) n

def pages (start upto : UInt32) : List (UInt32 × UInt32) :=
  pagesFrom start.toNat ((upto.toNat - start.toNat) / 4096)

variable {D}

theorem eraseLoop_run {upto : PageAddress} (n : Nat) : ∀ {s : DfuFlash φ} {start : PageAddress},
    upto.1.toNat = start.1.toNat + n * 4096 →
      (D.eraseLoop upto).run (s, start) = D.eraseAll (pagesFrom start.1.toNat n) s := by
  induction n with
  | zero =>
    intro s start hto
    have hdone : ¬ start.1 < upto.1 := by
      rw [UInt32.lt_iff_toNat_lt]
      omega
    exact Loop.run_exit (dif_neg hdone)
  | succ n ih =>
    intro s start hto
    have hlt : start.1 < upto.1 := by
      rw [UInt32.lt_iff_toNat_lt]
      omega
    obtain ⟨hend, -, haligned⟩ := toNat_pageEnd start.2 upto.2 hlt
    have hrest : upto.1.toNat = (pageEnd start.1 upto.1).toNat + n * 4096 := by omega
    have hstop : UInt32.ofNat (start.1.toNat + 4096) = pageEnd start.1 upto.1 := by
      rw [← hend, UInt32.ofNat_toNat]
    have hbody : (D.eraseLoop upto).body (s, start) = D.erasePage upto (s, start) := rfl
    rw [erasePage, dif_pos hlt] at hbody
    rw [pagesFrom, eraseAll, UInt32.ofNat_toNat, hstop, ← hend]
    rcases hcall : s.timed fun flash =>
      D.blockingErase flash start.1 (pageEnd start.1 upto.1) with ⟨result, s'⟩
    cases result with
    | error e =>
      simp only [hcall] at hbody ⊢
      exact Loop.run_exit hbody
    | ok u =>
      simp only [hcall] at hbody ⊢
      rw [Loop.run_next hbody]
      have hnext := @ih s' ⟨pageEnd start.1 upto.1, haligned⟩
      dsimp only at hnext
      exact hnext hrest

theorem eraseLoop_pages {s : DfuFlash φ} {start upto : UInt32} (hstart : start % eraseSize = 0)
    (hto : upto % eraseSize = 0) :
    (D.eraseLoop ⟨upto, hto⟩).run (s, ⟨start, hstart⟩) = D.eraseAll (pages start upto) s := by
  have hstart' : start.toNat % 4096 = 0 := congrArg UInt32.toNat hstart
  have hto' : upto.toNat % 4096 = 0 := congrArg UInt32.toNat hto
  rcases Nat.le_total start.toNat upto.toNat with hle | hge
  · have hrun := @eraseLoop_run _ _ D ⟨upto, hto⟩ ((upto.toNat - start.toNat) / 4096) s
      ⟨start, hstart⟩
    dsimp only at hrun
    exact hrun (by omega)
  · have hdone : ¬ start < upto := by
      rw [UInt32.lt_iff_toNat_lt]
      omega
    rw [pages, Nat.sub_eq_zero_of_le hge]
    exact Loop.run_exit (dif_neg hdone)

theorem mem_pagesFrom {p : UInt32 × UInt32} {n start : Nat} :
    p ∈ pagesFrom start n ↔ ∃ i < n, p = (UInt32.ofNat (start + i * 4096),
      UInt32.ofNat (start + i * 4096 + 4096)) := by
  induction n generalizing start with
  | zero => simp [pagesFrom]
  | succ n ih =>
    rw [pagesFrom, List.mem_cons, ih]
    constructor
    · rintro (rfl | ⟨i, hi, rfl⟩)
      · exact ⟨0, Nat.succ_pos n, by simp⟩
      · refine ⟨i + 1, Nat.succ_lt_succ hi, ?_⟩
        rw [show start + (i + 1) * 4096 = start + 4096 + i * 4096 by omega]
    · rintro ⟨i, hi, rfl⟩
      cases i with
      | zero => exact .inl (by simp)
      | succ i =>
        refine .inr ⟨i, Nat.lt_of_succ_lt_succ hi, ?_⟩
        rw [show start + (i + 1) * 4096 = start + 4096 + i * 4096 by omega]

section

variable {start upto a : UInt32} {p : UInt32 × UInt32}

theorem toNat_ofNat_of_le {n : Nat} (h : n ≤ upto.toNat) : (UInt32.ofNat n).toNat = n :=
  UInt32.toNat_ofNat_of_lt' (Nat.lt_of_le_of_lt h upto.toNat_lt)

/-- Where the pages of an erase lie: none of them wraps around. -/
theorem mem_pages (hp : p ∈ pages start upto) : ∃ i, p.1.toNat = start.toNat + i * 4096 ∧
    p.2.toNat = p.1.toNat + 4096 ∧ p.2.toNat ≤ upto.toNat := by
  obtain ⟨i, hi, rfl⟩ := mem_pagesFrom.mp hp
  have hfits : start.toNat + i * 4096 + 4096 ≤ upto.toNat := by omega
  have hfirst : (UInt32.ofNat (start.toNat + i * 4096)).toNat = start.toNat + i * 4096 :=
    toNat_ofNat_of_le (Nat.le_trans (Nat.le_add_right _ 4096) hfits)
  have hlast : (UInt32.ofNat (start.toNat + i * 4096 + 4096)).toNat =
      start.toNat + i * 4096 + 4096 := toNat_ofNat_of_le hfits
  exact ⟨i, hfirst, by rw [hlast, hfirst], by rw [hlast]; exact hfits⟩

theorem exists_page_at {i : Nat} (hi : i < (upto.toNat - start.toNat) / 4096) :
    ∃ p ∈ pages start upto, p.1.toNat = start.toNat + i * 4096 :=
  ⟨_, mem_pagesFrom.mpr ⟨i, hi, rfl⟩, @toNat_ofNat_of_le upto _ (by omega)⟩

theorem exists_page (hstart : start.toNat % 4096 = 0) (hto : upto.toNat % 4096 = 0)
    (hlow : start ≤ a) (hhigh : a < upto) : ∃ p ∈ pages start upto, p.1 ≤ a ∧ a < p.2 := by
  have hlow := UInt32.le_iff_toNat_le.mp hlow
  have hhigh := UInt32.lt_iff_toNat_lt.mp hhigh
  obtain ⟨p, hmem, hfirst⟩ : ∃ p ∈ pages start upto,
      p.1.toNat = start.toNat + (a.toNat - start.toNat) / 4096 * 4096 :=
    exists_page_at (by omega)
  obtain ⟨-, -, hlast, -⟩ := mem_pages hmem
  refine ⟨p, hmem, ?_, ?_⟩
  · rw [UInt32.le_iff_toNat_le]
    omega
  · rw [UInt32.lt_iff_toNat_lt]
    omega

theorem pairwise_pagesFrom {n first : Nat} (h : first + n * 4096 ≤ upto.toNat) :
    (pagesFrom first n).Pairwise fun p q => p.2 ≤ q.1 := by
  induction n generalizing first with
  | zero => exact List.Pairwise.nil
  | succ n ih =>
    refine List.pairwise_cons.mpr ⟨fun q hq => ?_, ih (by omega)⟩
    obtain ⟨i, hi, rfl⟩ := mem_pagesFrom.mp hq
    rw [UInt32.le_iff_toNat_le, @toNat_ofNat_of_le upto _ (by omega),
      @toNat_ofNat_of_le upto _ (by omega)]
    omega

theorem pairwise_pages (start upto : UInt32) :
    (pages start upto).Pairwise fun p q => p.2 ≤ q.1 := by
  rcases Nat.le_total start.toNat upto.toNat with hle | hge
  · exact @pairwise_pagesFrom upto _ _ (by omega)
  · rw [pages, Nat.sub_eq_zero_of_le hge]
    exact List.Pairwise.nil

/-- An erase is that of its pages in turn, up to the first that fails, and its pages are the
whole range, each byte of it once; a range that does not start and end with a page is refused. -/
theorem erase_by_pages (D : Driver φ ε) (s : DfuFlash φ) (start upto : UInt32) :
    (start % eraseSize = 0 ∧ upto % eraseSize = 0 →
      D.erase s start upto = D.eraseAll (pages start upto) s ∧
      (∀ p ∈ pages start upto, p.1 % eraseSize = 0 ∧ p.2.toNat = p.1.toNat + eraseSize.toNat) ∧
      (pages start upto).Pairwise (fun p q => p.2 ≤ q.1) ∧
      ∀ a, (∃ p ∈ pages start upto, p.1 ≤ a ∧ a < p.2) ↔ start ≤ a ∧ a < upto) ∧
    (¬ (start % eraseSize = 0 ∧ upto % eraseSize = 0) →
      D.erase s start upto = (.error D.unaligned, s)) := by
  refine ⟨fun haligned => ?_, fun h => dif_neg h⟩
  have hstart : start.toNat % 4096 = 0 := congrArg UInt32.toNat haligned.1
  have hto : upto.toNat % 4096 = 0 := congrArg UInt32.toNat haligned.2
  refine ⟨?_, fun p hp => ?_, pairwise_pages start upto, fun a => ⟨?_, ?_⟩⟩
  · rw [erase, dif_pos haligned]
    exact eraseLoop_pages haligned.1 haligned.2
  · obtain ⟨i, hfirst, hlast, -⟩ := mem_pages hp
    refine ⟨?_, hlast⟩
    rw [← UInt32.toNat_inj, UInt32.toNat_mod, hfirst]
    show (start.toNat + i * 4096) % 4096 = 0
    omega
  · rintro ⟨p, hp, hlow, hhigh⟩
    obtain ⟨i, hfirst, hlast, hend⟩ := mem_pages hp
    rw [UInt32.le_iff_toNat_le] at hlow ⊢
    rw [UInt32.lt_iff_toNat_lt] at hhigh ⊢
    omega
  · rintro ⟨hlow, hhigh⟩
    exact exists_page hstart hto hlow hhigh

end

/-! ## The watchdog -/

/-- What is asked of the flash, and the time that passes in between. -/
inductive Call where
  | read (offset : UInt32) (length : Nat)
  | write (offset : UInt32) (bytes : List UInt8)
  | erase (start upto : UInt32)
  | elsewhere (micros : Nat)

variable (D) in
def call (s : DfuFlash φ) : Call → DfuFlash φ
  | .read offset length => (D.read s offset length).2
  | .write offset bytes => (D.write s offset bytes).2
  | .erase start upto => (D.erase s start upto).2
  | .elsewhere micros => { s with now := s.now + micros }

/-- Each call of the driver is over before the watchdog is. -/
structure Prompt (D : Driver φ ε) : Prop where
  read : ∀ flash offset length, (D.blockingRead flash offset length).1.2 < timeoutMicros
  write : ∀ flash offset bytes, (D.blockingWrite flash offset bytes).1.2 < timeoutMicros
  erase : ∀ flash start upto, (D.blockingErase flash start upto).1.2 < timeoutMicros

/-- Every blocking operation begins with a full watchdog and ends before it runs out, and
the longest one is on record. -/
structure Watched (s : DfuFlash φ) : Prop where
  fed : ∀ w ∈ s.log, w.fed = w.start
  inTime : ∀ w ∈ s.log, w.stop < w.fed + timeoutMicros
  longest : ∀ w ∈ s.log, w.length ≤ s.maxWindowUs.toNat
  reached : s.log = [] ∧ s.maxWindowUs = 0 ∨ ∃ w ∈ s.log, w.length = s.maxWindowUs.toNat

section

variable {s : DfuFlash φ} {α : Type}

/-- The window that a call of the driver adds to the log. -/
theorem timed_eq {operation : φ → (α × Nat) × φ} {value : α} {took : Nat} {flash : φ}
    (hcall : operation s.flash = ((value, took), flash)) :
    s.timed operation = (value,
      { flash, now := s.now + took, fed := s.now,
        maxWindowUs :=
          if s.maxWindowUs < UInt32.ofNat took then UInt32.ofNat took else s.maxWindowUs
        log := s.log ++ [{ fed := s.now, start := s.now, stop := s.now + took }] }) := by
  simp only [DfuFlash.timed, DfuFlash.feed, DfuFlash.recordWindow, hcall, Nat.add_sub_cancel_left]

theorem Watched.timed (h : Watched s) {operation : φ → (α × Nat) × φ}
    (htook : (operation s.flash).1.2 < timeoutMicros) : Watched (s.timed operation).2 := by
  rcases hcall : operation s.flash with ⟨⟨value, took⟩, flash⟩
  rw [hcall] at htook
  rw [timed_eq hcall]
  have hmicros : (UInt32.ofNat took).toNat = took :=
    UInt32.toNat_ofNat_of_lt' (Nat.lt_trans htook (by decide))
  generalize hw : ({ fed := s.now, start := s.now, stop := s.now + took } : Window) = w
  have hfed : w.fed = w.start := by rw [← hw]
  have hinTime : w.stop < w.fed + timeoutMicros := by
    rw [← hw]
    exact Nat.add_lt_add_left htook s.now
  have hlength : w.length = took := by
    rw [← hw]
    exact Nat.add_sub_cancel_left s.now took
  have hfed := List.forall_mem_append.mpr ⟨h.fed, List.forall_mem_singleton.mpr hfed⟩
  have hinTime := List.forall_mem_append.mpr ⟨h.inTime, List.forall_mem_singleton.mpr hinTime⟩
  by_cases hlonger : s.maxWindowUs < UInt32.ofNat took
  · have hmax := UInt32.lt_iff_toNat_lt.mp hlonger
    rw [hmicros] at hmax
    simp only [if_pos hlonger]
    refine ⟨hfed, hinTime, List.forall_mem_append.mpr ⟨fun w hw => ?_, ?_⟩,
      .inr ⟨_, List.mem_append_right _ (List.mem_singleton_self _), ?_⟩⟩
    · rw [hmicros]
      exact Nat.le_trans (h.longest w hw) (Nat.le_of_lt hmax)
    · rw [List.forall_mem_singleton, hlength, hmicros]
    · rw [hlength, hmicros]
  · have hmax : took ≤ s.maxWindowUs.toNat := by
      rw [UInt32.lt_iff_toNat_lt, hmicros, Nat.not_lt] at hlonger
      exact hlonger
    simp only [if_neg hlonger]
    refine ⟨hfed, hinTime, List.forall_mem_append.mpr ⟨h.longest, ?_⟩, .inr ?_⟩
    · rw [List.forall_mem_singleton, hlength]
      exact hmax
    · rcases h.reached with ⟨hnone, hzero⟩ | ⟨w, hw, hlongest⟩
      · refine ⟨_, List.mem_append_right _ (List.mem_singleton_self _), ?_⟩
        rw [hzero] at hmax ⊢
        rw [hlength]
        exact Nat.le_zero.mp hmax
      · exact ⟨w, List.mem_append_left _ hw, hlongest⟩

theorem Watched.eraseAll (hprompt : Prompt D) {pages : List (UInt32 × UInt32)} :
    ∀ {s : DfuFlash φ}, Watched s → Watched (D.eraseAll pages s).2 := by
  induction pages with
  | nil => exact fun h => h
  | cons p pages ih =>
    intro s h
    have hpage : Watched (s.timed fun flash => D.blockingErase flash p.1 p.2).2 :=
      h.timed (hprompt.erase s.flash p.1 p.2)
    rw [Driver.eraseAll]
    rcases hcall : s.timed fun flash => D.blockingErase flash p.1 p.2 with ⟨result, s'⟩
    rw [hcall] at hpage
    cases result with
    | error e => exact hpage
    | ok u => exact ih hpage

theorem Watched.erase (hprompt : Prompt D) (h : Watched s) (start upto : UInt32) :
    Watched (D.erase s start upto).2 := by
  unfold Driver.erase
  split
  · next haligned =>
    rw [eraseLoop_pages haligned.1 haligned.2]
    exact h.eraseAll hprompt
  · exact h

theorem Watched.call (hprompt : Prompt D) (h : Watched s) (c : Call) : Watched (D.call s c) := by
  cases c with
  | read offset length => exact h.timed (hprompt.read s.flash offset length)
  | write offset bytes => exact h.timed (hprompt.write s.flash offset bytes)
  | erase start upto => exact h.erase hprompt start upto
  | elsewhere micros => exact ⟨h.fed, h.inTime, h.longest, h.reached⟩

end

end Driver

end Update
end GarageDoor
