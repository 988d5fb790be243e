/-
How long a release stays.

Where the versions grow and only the prune ever fails, the release before the last one is
served as well, so a check outlasts the next deployment.
-/
import GarageDoor.Deploy.Release

namespace GarageDoor
namespace Deploy

open Library Ascii Ota

/-- Versions grow, in the range of the shell's arithmetic, and only the prune fails. -/
structure Steady (s : Site) (e : Event) : Prop where
  deploys : ∀ b, e = .deploy b → Canonical b.version ∧ decimal b.version < 2 ^ 63 ∧
    ∀ b' ∈ s.history, decimal b'.version < decimal b.version
  fails : e = .failed → ∃ todo, s.phase = .pruning todo

/-- The last two releases. -/
def lastTwo (history : List Build) : List Build := history.reverse.take 2

structure Retained (hash : List UInt8 → Digest) (s : Site) : Prop where
  sound : Sound hash s
  small : ∀ b, b ∈ s.history ∨ s.phase.building = some b → decimal b.version < 2 ^ 63
  sorted : s.history.Pairwise fun b b' => decimal b.version < decimal b'.version
  newest : ∀ b, s.phase.building = some b →
    ∀ b' ∈ s.history, decimal b'.version < decimal b.version
  known : ∀ base ∈ bases s.dir,
    ∃ b, (b ∈ s.history ∨ s.phase.building = some b) ∧ base = b.version
  complete : ∀ b ∈ lastTwo s.history, Complete hash s.dir b
  todo : ∀ todo, s.phase = .pruning todo → ∀ name ∈ todo, ∀ b ∈ lastTwo s.history,
    name ≠ binName b.version ∧ name ≠ shaName b.version

section

variable {hash : List UInt8 → Digest} {s s' : Site} {e : Event} {o os : List Observation}
  {dir : Directory} {history : List Build} {b b' : Build} {name base : Text} {es : List Event}

theorem Steady.bumped (h : Steady s e) : Bumped s e := by
  intro b hb
  obtain ⟨hcanonical, -, hlt⟩ := h.deploys b hb
  refine ⟨hcanonical, fun b' hb' heq => ?_⟩
  have := hlt b' hb'
  rw [heq] at this
  exact absurd this (Nat.lt_irrefl _)

theorem shellInt_of_lt (h : decimal base < 2 ^ 63) : shellInt base = decimal base := by
  unfold shellInt
  rw [Int.bmod_eq_of_le] <;> omega

theorem lastTwo_concat (history : List Build) (b : Build) :
    lastTwo (history ++ [b]) = b :: history.getLast?.toList := by
  rw [lastTwo, List.reverse_append, ← List.head?_reverse]
  cases history.reverse with
  | nil => rfl
  | cons c cs => rfl

theorem mem_lastTwo (h : b ∈ lastTwo history) : b ∈ history :=
  List.mem_reverse.mp (List.mem_of_mem_take h)

theorem Complete.frame {dir' : Directory} (h : Complete hash dir b)
    (hbin : dir'.lookup (binName b.version) = dir.lookup (binName b.version))
    (hsha : dir'.lookup (shaName b.version) = dir.lookup (shaName b.version)) :
    Complete hash dir' b := ⟨hbin.trans h.image, hsha.trans h.checksum⟩

/-- The files of another release than the one that is written stay. -/
theorem Complete.insert_target {f : File} {target : Target} (h : Complete hash dir b')
    (hne : b'.version ≠ b.version) : Complete hash (dir.insert (target.name b) f) b' := by
  cases target with
  | image =>
    exact ⟨h.image.of_ne fun heq => hne (binName_inj heq),
      h.checksum.of_ne (binName_ne_shaName _ _).symm⟩
  | checksum =>
    exact ⟨h.image.of_ne (binName_ne_shaName _ _),
      h.checksum.of_ne fun heq => hne (shaName_inj heq)⟩
  | version => exact h.insert_tmp

theorem bases_insert {f : File} {target : Target}
    (h : base ∈ bases (dir.insert (target.name b) f)) : base ∈ bases dir ∨ base = b.version := by
  obtain ⟨hdigits, hmem⟩ := mem_bases.mp h
  rcases (AList.mem_insert dir).mp hmem with heq | hmem
  · cases target with
    | image => exact .inr (binName_inj heq)
    | checksum => exact absurd heq (binName_ne_shaName _ _)
    | version => exact absurd heq binName_ne_tmp
  · exact .inl (mem_bases.mpr ⟨hdigits, hmem⟩)

theorem bases_erase (h : base ∈ bases (dir.erase name)) : base ∈ bases dir := by
  obtain ⟨hdigits, hmem⟩ := mem_bases.mp h
  exact mem_bases.mpr ⟨hdigits, (AList.mem_erase.mp hmem).2⟩

theorem bases_rename {dir' : Directory} (hrename : rename dir versionTmp versionName = some dir')
    (h : base ∈ bases dir') : base ∈ bases dir := by
  obtain ⟨f, -, rfl⟩ := rename_eq_some.mp hrename
  obtain ⟨hdigits, hmem⟩ := mem_bases.mp h
  rcases (AList.mem_insert _).mp hmem with heq | hmem
  · exact absurd heq binName_ne_version
  · exact mem_bases.mpr ⟨hdigits, (AList.mem_erase.mp hmem).2⟩

/-- The release before is the greatest below the one that is published. -/
theorem isGreatest_last (hsmall : ∀ b' ∈ history ++ [b], decimal b'.version < 2 ^ 63)
    (hsorted : (history ++ [b]).Pairwise fun b b' => decimal b.version < decimal b'.version)
    (hknown : ∀ base ∈ bases dir, ∃ b' ∈ history ++ [b], base = b'.version)
    (hlast : history.getLast? = some b') (hmem : b'.version ∈ bases dir) :
    IsGreatest (below (shellInt b.version) dir) (shellInt b'.version) := by
  obtain ⟨front, rfl⟩ := List.getLast?_eq_some_iff.mp hlast
  have hint : ∀ c ∈ (front ++ [b']) ++ [b], shellInt c.version = decimal c.version :=
    fun c hc => shellInt_of_lt (hsmall c hc)
  have hb : shellInt b.version = decimal b.version := hint b (by simp)
  have hb' : shellInt b'.version = decimal b'.version := hint b' (by simp)
  rw [List.append_assoc, List.pairwise_append] at hsorted
  obtain ⟨-, hpair, hfront⟩ := hsorted
  have hlt : decimal b'.version < decimal b.version := by simpa using hpair
  refine ⟨⟨by rw [hb, hb']; exact_mod_cast hlt, b'.version, hmem, rfl⟩, ?_⟩
  rintro n ⟨hn, base, hbase, rfl⟩
  obtain ⟨c, hc, rfl⟩ := hknown base hbase
  rw [hint c hc, hb] at hn
  rw [hint c hc, hb']
  rcases List.mem_append.mp hc with hc | hc
  · rcases List.mem_append.mp hc with hc | hc
    · exact_mod_cast le_of_lt (hfront c hc b' (by simp))
    · rw [List.mem_singleton.mp hc]
  · rw [List.mem_singleton.mp hc] at hn
    exact absurd hn (lt_irrefl _)

/-- What the prune takes spares the last two releases. -/
theorem spared_of_mem_prune
    (hgreatest : ∀ b', history.getLast? = some b' →
      IsGreatest (below (shellInt b.version) dir) (shellInt b'.version))
    (hname : name ∈ prune b.version dir) : ∀ b' ∈ lastTwo (history ++ [b]),
      name ≠ binName b'.version ∧ name ≠ shaName b'.version := by
  obtain ⟨base, hname, -, -, hne, hnot⟩ := mem_prune.mp hname
  intro b' hb'
  have hbase : base ≠ b'.version := by
    rintro rfl
    rw [lastTwo_concat, List.mem_cons] at hb'
    rcases hb' with rfl | hb'
    · exact hne rfl
    · exact hnot (hgreatest b' (Option.mem_toList.mp hb'))
  rcases hname with rfl | rfl
  · exact ⟨fun h => hbase (binName_inj h), binName_ne_shaName _ _⟩
  · exact ⟨(binName_ne_shaName _ _).symm, fun h => hbase (shaName_inj h)⟩

/-- A write to a file of the release that is on its way. -/
theorem Retained.insert {f : File} {target : Target} {phase : Phase}
    (h : Retained hash s) (hb : s.phase.building = some b) (hphase : phase.building = some b)
    (hsound : Sound hash { s with phase, dir := s.dir.insert (target.name b) f }) :
    Retained hash { s with phase, dir := s.dir.insert (target.name b) f } := by
  refine ⟨hsound, fun c hc => h.small c ?_, h.sorted, fun c hc => ?_, fun base hbase => ?_,
    fun c hc => (h.complete c hc).insert_target ?_, fun todo htodo => ?_⟩
  · rwa [hb, ← hphase]
  · rw [hphase] at hc
    exact h.newest c (hb.trans hc)
  · rcases bases_insert hbase with hbase | rfl
    · obtain ⟨c, hc, rfl⟩ := h.known base hbase
      refine ⟨c, ?_, rfl⟩
      rwa [hphase, ← hb]
    · exact ⟨b, .inr hphase, rfl⟩
  · exact (h.sound.fresh b hb).2 c (mem_lastTwo hc)
  · have htodo : phase = .pruning todo := htodo
    rw [htodo] at hphase
    cases hphase

/-- Nothing but the phase changes, and nothing new is on its way. -/
theorem Retained.rest {phase : Phase} (h : Retained hash s) (hphase : phase.building = none)
    (hold : ∀ b, s.phase.building = some b → b.version ∉ bases s.dir)
    (htodo : ∀ todo, phase ≠ .pruning todo) (hsound : Sound hash { s with phase }) :
    Retained hash { s with phase } := by
  refine ⟨hsound, fun c hc => h.small c ?_, h.sorted, fun c hc => ?_, fun base hbase => ?_,
    h.complete, fun todo heq => absurd heq (htodo todo)⟩
  · rcases hc with hc | hc
    · exact .inl hc
    · rw [hphase] at hc
      cases hc
  · rw [hphase] at hc
    cases hc
  · obtain ⟨c, hc, rfl⟩ := h.known base hbase
    rcases hc with hc | hc
    · exact ⟨c, .inl hc, rfl⟩
    · exact absurd hbase (hold c hc)

theorem Retained.renamed {dir : Directory} (h : Retained hash s)
    (hphase : s.phase = .renaming b)
    (hrename : rename s.dir versionTmp versionName = some dir)
    (hsound : Sound hash
      { s with phase := .pruning (prune b.version dir), history := s.history ++ [b], dir }) :
    Retained hash
      { s with phase := .pruning (prune b.version dir), history := s.history ++ [b], dir } := by
  have hbuilding : s.phase.building = some b := by rw [hphase]; rfl
  have hsmall : ∀ c ∈ s.history ++ [b], decimal c.version < 2 ^ 63 := fun c hc =>
    h.small c ((List.mem_append.mp hc).imp id fun hc => by rw [hbuilding, List.mem_singleton.mp hc])
  have hsorted : (s.history ++ [b]).Pairwise fun b b' => decimal b.version < decimal b'.version :=
    List.pairwise_append.mpr ⟨h.sorted, List.pairwise_singleton _ _, fun c hc c' hc' => by
      rw [List.mem_singleton.mp hc']
      exact h.newest b hbuilding c hc⟩
  have hknown : ∀ base ∈ bases dir, ∃ c ∈ s.history ++ [b], base = c.version := by
    intro base hbase
    obtain ⟨c, hc, rfl⟩ := h.known base (bases_rename hrename hbase)
    rw [hbuilding, Option.some.injEq] at hc
    exact ⟨c, List.mem_append.mpr (hc.imp id fun hc => List.mem_singleton.mpr hc.symm), rfl⟩
  have hcomplete : ∀ c ∈ lastTwo (s.history ++ [b]), Complete hash dir c := by
    intro c hc
    rw [lastTwo_concat, List.mem_cons] at hc
    rcases hc with rfl | hc
    · exact hsound.records.last c List.getLast?_concat
    · obtain ⟨f, hf, rfl⟩ := rename_eq_some.mp hrename
      refine (h.sound.records.last c (Option.mem_toList.mp hc)).frame ?_ ?_
      · rw [AList.lookup_insert_ne binName_ne_version, AList.lookup_erase_ne binName_ne_tmp]
      · rw [AList.lookup_insert_ne shaName_ne_version, AList.lookup_erase_ne shaName_ne_tmp]
  refine ⟨hsound, fun c hc => ?_, hsorted, nofun, fun base hbase => ?_, hcomplete,
    fun todo htodo => ?_⟩
  · rcases hc with hc | hc
    · exact hsmall c hc
    · cases hc
  · obtain ⟨c, hc, rfl⟩ := hknown base hbase
    exact ⟨c, .inl hc, rfl⟩
  · cases htodo
    refine fun name hname => spared_of_mem_prune (fun c hc => ?_) hname
    refine isGreatest_last hsmall hsorted hknown hc (mem_bases.mpr ⟨c.digits, ?_⟩)
    have hpresent := hcomplete c (by
      rw [lastTwo_concat]
      exact List.mem_cons_of_mem _ (Option.mem_toList.mpr hc))
    rw [← AList.lookup_isSome, hpresent.image]
    rfl

theorem Retained.publishes (h : Retained hash s) (hsteady : Steady s e)
    (hs : Publishes hash s e s') : Retained hash s' := by
  have hsound := h.sound.publishes hsteady.bumped hs
  cases hs with
  | @deploy b hphase =>
    obtain ⟨-, hsmall, hnewest⟩ := hsteady.deploys b rfl
    have hnone : s.phase.building = none := by rw [hphase]; rfl
    refine ⟨hsound, fun c hc => ?_, h.sorted, fun c hc => ?_, fun base hbase => ?_, h.complete,
      nofun⟩
    · rcases hc with hc | hc
      · exact h.small c (.inl hc)
      · cases hc
        exact hsmall
    · cases hc
      exact hnewest
    · obtain ⟨c, hc, rfl⟩ := h.known base hbase
      rw [hnone] at hc
      rcases hc with hc | hc
      · exact ⟨c, .inl hc, rfl⟩
      · cases hc
  | @wrote b target written readable hphase =>
    have hb : s.phase.building = some b := by rw [hphase]; rfl
    exact h.insert hb hb hsound
  | @copied b target readable hphase =>
    have hb : s.phase.building = some b := by rw [hphase]; rfl
    exact h.insert hb (building_afterCopy b target) hsound
  | @opened b target f hphase hf =>
    have hb : s.phase.building = some b := by rw [hphase]; rfl
    exact h.insert hb (building_afterOpen b target) hsound
  | renamed hphase hrename => exact h.renamed hphase hrename hsound
  | @removed todo name hphase hmem =>
    have hnone : s.phase.building = none := by rw [hphase]; rfl
    have hspared := h.todo todo hphase
    refine ⟨hsound, fun c hc => h.small c ?_, h.sorted, nofun, fun base hbase => ?_,
      fun c hc => ?_, fun todo' htodo => ?_⟩
    · exact hc.imp id nofun
    · obtain ⟨c, hc, rfl⟩ := h.known base (bases_erase hbase)
      rw [hnone] at hc
      exact ⟨c, hc.imp id nofun, rfl⟩
    · obtain ⟨hbin, hsha⟩ := hspared name hmem c hc
      exact (h.complete c hc).frame (AList.lookup_erase_ne hbin.symm)
        (AList.lookup_erase_ne hsha.symm)
    · cases htodo
      exact fun other hother => hspared other (List.mem_of_mem_erase hother)
  | finished hphase =>
    have hnone : s.phase.building = none := by rw [hphase]; rfl
    refine h.rest rfl (fun b hb => ?_) nofun hsound
    rw [hnone] at hb
    cases hb
  | failed hphase =>
    obtain ⟨todo, hpruning⟩ := hsteady.fails rfl
    have hnone : s.phase.building = none := by rw [hpruning]; rfl
    refine h.rest rfl (fun b hb => ?_) nofun hsound
    rw [hnone] at hb
    cases hb

theorem check_same (hs : check s s.reader e = some (s', o)) :
    s'.dir = s.dir ∧ s'.phase = s.phase ∧ s'.history = s.history := by
  unfold check at hs
  repeat' split at hs
  all_goals
    first
      | cases hs
        exact ⟨rfl, rfl, rfl⟩
      | cases hs

theorem Retained.step (h : Retained hash s) (hsteady : Steady s e)
    (hs : react hash s e = some (s', o)) : Retained hash s' := by
  unfold react at hs
  cases hpublish : publish hash s s.phase e with
  | some next =>
    simp only [hpublish, Option.some.injEq, Prod.mk.injEq] at hs
    obtain ⟨rfl, rfl⟩ := hs
    exact h.publishes hsteady (publishes_of_publish hpublish)
  | none =>
    simp only [hpublish] at hs
    obtain ⟨hsound, -, -⟩ := h.sound.check hs
    obtain ⟨hdir, hphase, hhistory⟩ := check_same hs
    refine ⟨hsound, ?_, ?_, ?_, ?_, ?_, ?_⟩ <;> simp only [hdir, hphase, hhistory]
    · exact h.small
    · exact h.sorted
    · exact h.newest
    · exact h.known
    · exact h.complete
    · exact h.todo

/-- Where versions grow and nothing but the prune fails, the image and the checksum of the
last release and of the one before it are served at every moment, in the middle of a
deployment too. -/
theorem last_two_releases_served (halong : (site hash).Along Steady start es)
    (h : (site hash).run es = some (s, os)) :
    ∀ b ∈ lastTwo s.history, get s.dir (binName b.version) = some b.image ∧
      get s.dir (shaName b.version) = some (b.checksumFile hash) := by
  have hstart : Retained hash start :=
    ⟨sound_start, fun _ h => h.elim nofun nofun, .nil, nofun, nofun, nofun, nofun⟩
  have hretained := Machine.run_history_along (I := fun s _ _ => Retained hash s) hstart
    (fun hI hP hs => hI.step hP hs) halong h
  intro b hb
  have hcomplete := hretained.complete b hb
  exact ⟨get_of_lookup hcomplete.image, get_of_lookup hcomplete.checksum⟩

theorem steady_of_not_deploy (hes : ∀ e ∈ es, (∀ b, e ≠ .deploy b) ∧ e ≠ .failed) :
    ∀ s, (site hash).Along Steady s es :=
  Machine.along_of_forall fun e he _ =>
    ⟨fun b hb => absurd hb ((hes e he).1 b), fun hf => absurd hf (hes e he).2⟩

def six : Build :=
  { version := text "6", image := [3], digits := by decide, nonempty := by decide,
    fits := by decide }

theorem steady_deploy (hcanonical : Canonical b.version) (hsmall : decimal b.version < 2 ^ 63)
    (hnewest : ∀ b' ∈ s.history, decimal b'.version < decimal b.version)
    (hes : ∀ e ∈ es, (∀ b, e ≠ .deploy b) ∧ e ≠ .failed) :
    (site hash).Along Steady s (.deploy b :: es) := by
  refine ⟨⟨fun c hc => ?_, nofun⟩, fun s' _ _ => steady_of_not_deploy hes s'⟩
  cases hc
  exact ⟨hcanonical, hsmall, hnewest⟩

def nextPublication : List Event :=
  [.copied false, .copied false, .opened, .opened, .copied false, .opened, .renamed, .finished]

theorem last_two_releases_served_six : ∃ s os,
    (site digests.hash).run
      ((.deploy five :: publication) ++ (.deploy six :: nextPublication)) = some (s, os) ∧
    lastTwo s.history = [six, five] ∧ get s.dir (binName five.version) = some [1, 2] := by
  have hfive : ((site digests.hash).run (.deploy five :: publication)).map
      (·.1.history) = some [five] := rfl
  have hrun : ((site digests.hash).run
      ((.deploy five :: publication) ++ (.deploy six :: nextPublication))).map
      (lastTwo ·.1.history) = some [six, five] := rfl
  have hnone : ∀ b ∈ start.history, decimal b.version < decimal five.version :=
    List.forall_mem_nil _
  have hplain : ∀ e ∈ publication, (∀ b, e ≠ .deploy b) ∧ e ≠ .failed := by simp [publication]
  have hnext : ∀ e ∈ nextPublication, (∀ b, e ≠ .deploy b) ∧ e ≠ .failed := by
    simp [nextPublication]
  obtain ⟨⟨t, os'⟩, hfive, hhistory⟩ := Option.map_eq_some_iff.mp hfive
  obtain ⟨⟨s, os⟩, hrun, hlast⟩ := Option.map_eq_some_iff.mp hrun
  have halong : (site digests.hash).Along Steady start
      ((.deploy five :: publication) ++ (.deploy six :: nextPublication)) := by
    refine Machine.along_append (steady_deploy (by decide) (by decide) hnone hplain) ?_
    intro t' os'' hrun'
    cases hfive.symm.trans hrun'
    refine steady_deploy (by decide) (by decide) ?_ hnext
    rw [hhistory]
    decide
  refine ⟨s, os, hrun, hlast, (last_two_releases_served halong hrun five ?_).1⟩
  rw [hlast]
  exact List.mem_cons_of_mem _ List.mem_cons_self

end

end Deploy
end GarageDoor
