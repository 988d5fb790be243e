/-
The names under which a release is published, and those a device asks for.

`deploy.sh` takes the version from the VERSION file as a text, `build.rs` and the device
take it as a number.
-/
import GarageDoor.App.Ota.Consistent
import GarageDoor.Core.Ota.Texts

namespace GarageDoor
namespace Deploy

open Library Ascii Ota

/-- `[:space:]`, with the vertical tab. -/
def isSpace (b : UInt8) : Bool := 9 ≤ b && b ≤ 13 || b == 32

/-- VERSION in `deploy.sh`, with all whitespace deleted.  The command substitution drops
NUL bytes. -/
def deployVersion (content : List UInt8) : Option Text :=
  let version := content.filter fun b => !isSpace b && b != 0
  if version = [] ∨ ¬ version.all isDigit then none else some version

/-- Rust's `char::is_whitespace`. -/
def isWhitespaceChar (c : Char) : Bool :=
  let n := c.toNat
  9 ≤ n && n ≤ 13 || n == 32 || n == 0x85 || n == 0xA0 || n == 0x1680 ||
    0x2000 ≤ n && n ≤ 0x200A || n == 0x2028 || n == 0x2029 || n == 0x202F || n == 0x205F ||
    n == 0x3000

def trimChars (cs : List Char) : List Char :=
  (cs.dropWhile isWhitespaceChar).rdropWhile isWhitespaceChar

/-- Rust's `u32::from_str`: an optional plus sign, then digits. -/
def u32FromStr (s : Text) : Option Nat :=
  let digits := if s.head? = some 43 then s.tail else s
  if digits = [] ∨ ¬ digits.all isDigit then none else checkedDecimal (2 ^ 32) 0 digits

/-- The number that `build.rs` reads from the file. -/
def emitVersion (content : List UInt8) : Option Nat :=
  match decodeUtf8 content with
  | none => none
  | some raw => u32FromStr (encodeUtf8 (trimChars raw))

/-- The `parse_u32` of `main.rs`; the compiler rejects a constant that overflows. -/
def parseU32 (s : Text) : Option Nat := checkedDecimal (2 ^ 32) 0 s

/-- The VERSION of the image that is built. -/
def imageVersion (content : List UInt8) : Option Nat :=
  (emitVersion content).bind fun version => parseU32 (text (toString version))

/-- The names of the published files, and what the version file holds. -/
structure Release where
  bin : Text
  sha : Text
  versionFile : Text

def release (version : Text) : Release :=
  { bin := version ++ text ".bin", sha := version ++ text ".bin.sha256",
    versionFile := version ++ [10] }

/-- A device that reads the version file finds the remote version, asks for the published
names, and has nothing to do once it runs the image. -/
def Agrees (r : Release) (version : Nat) : Prop :=
  r.versionFile.length ≤ versionMaxBytes ∧
  ∃ remote, parseVersion r.versionFile = some remote ∧
    fileName remote ".bin.sha256" = some r.sha ∧ fileName remote ".bin" = some r.bin ∧
    version = remote ∧ decide version remote = .skip

/-! ## The two readings of the file -/

section

variable {content version s : List UInt8} {v : Nat}

theorem isWhitespaceChar_ascii {b : UInt8} (hb : b < 128) :
    isWhitespaceChar (asciiChar b) = isSpace b := by
  have hall : ∀ n < 128, isWhitespaceChar (Char.ofNat n) = isSpace (UInt8.ofNat n) := by decide
  have hbyte := hall b.toNat (UInt8.lt_iff_toNat_lt.mp hb)
  rwa [UInt8.ofNat_toNat] at hbyte

theorem deployVersion_eq_some : deployVersion content = some version ↔
    version = content.filter (fun b => !isSpace b && b != 0) ∧ version ≠ [] ∧
      ∀ b ∈ version, isDigit b = true := by
  simp only [deployVersion]
  constructor
  · intro h
    split at h
    · cases h
    · next hgood =>
      rw [not_or, not_not] at hgood
      cases h
      exact ⟨rfl, hgood.1, List.all_eq_true.mp hgood.2⟩
  · rintro ⟨rfl, hne, hdigits⟩
    rw [if_neg]
    rw [not_or, not_not]
    exact ⟨hne, List.all_eq_true.mpr hdigits⟩

/-- What `deploy.sh` accepts is ASCII, without a sign. -/
theorem byte_of_deploy (h : deployVersion content = some version) :
    ∀ b ∈ content, isSpace b = true ∨ b = 0 ∨ isDigit b = true := by
  obtain ⟨hversion, -, hdigits⟩ := deployVersion_eq_some.mp h
  intro b hb
  by_cases hspace : isSpace b = true
  · exact .inl hspace
  by_cases hnul : b = 0
  · exact .inr (.inl hnul)
  · refine .inr (.inr (hdigits b ?_))
    rw [hversion]
    exact List.mem_filter.mpr ⟨hb, by simp [hspace, hnul]⟩

theorem ascii_of_deploy (h : deployVersion content = some version) :
    ∀ b ∈ content, b < 128 := by
  intro b hb
  rw [UInt8.lt_iff_toNat_lt]
  rcases byte_of_deploy h b hb with hspace | rfl | hdigit
  · simp only [isSpace, Bool.or_eq_true, Bool.and_eq_true, decide_eq_true_eq, beq_iff_eq,
      UInt8.le_iff_toNat_le] at hspace
    rcases hspace with ⟨-, hle⟩ | rfl
    · exact Nat.lt_of_le_of_lt hle (by decide)
    · decide
  · decide
  · exact Nat.lt_of_le_of_lt (isDigit_iff.mp hdigit).2 (by decide)

theorem dropWhile_ascii (h : ∀ b ∈ content, b < 128) :
    (content.map asciiChar).dropWhile isWhitespaceChar =
      (content.dropWhile isSpace).map asciiChar := by
  induction content with
  | nil => rfl
  | cons b content ih =>
    have htail := ih fun c hc => h c (List.mem_cons_of_mem b hc)
    rw [List.map_cons, List.dropWhile_cons, List.dropWhile_cons,
      isWhitespaceChar_ascii (h b List.mem_cons_self), htail]
    split <;> rfl

theorem trimChars_map (h : ∀ b ∈ content, b < 128) :
    trimChars (content.map asciiChar) =
      ((content.dropWhile isSpace).rdropWhile isSpace).map asciiChar := by
  have hrest : ∀ b ∈ (content.dropWhile isSpace).reverse, b < 128 := fun b hb =>
    h b ((List.dropWhile_sublist _).mem (List.mem_reverse.mp hb))
  rw [trimChars, dropWhile_ascii h, List.rdropWhile, ← List.map_reverse, dropWhile_ascii hrest,
    ← List.map_reverse]
  rfl

theorem trimmed_mem {b : UInt8} (h : b ∈ (content.dropWhile isSpace).rdropWhile isSpace) :
    b ∈ content :=
  (List.dropWhile_sublist _).mem ((List.rdropWhile_prefix _ _).sublist.mem h)

theorem keep_digit {b : UInt8} (h : isDigit b = true) : (!isSpace b && b != 0) = true := by
  have hrange := isDigit_iff.mp h
  have hspace : isSpace b = false := by
    apply Bool.eq_false_iff.mpr
    intro hspace
    simp only [isSpace, Bool.or_eq_true, Bool.and_eq_true, decide_eq_true_eq, beq_iff_eq,
      UInt8.le_iff_toNat_le] at hspace
    rcases hspace with ⟨-, hle⟩ | rfl
    · exact absurd hrange.1 (Nat.not_le.mpr (Nat.lt_of_le_of_lt hle (by decide)))
    · exact absurd hrange.1 (by decide)
  have hnul : b ≠ 0 := by
    rintro rfl
    exact absurd hrange.1 (by decide)
  simp [hspace, hnul]

/-- What trimming leaves is what deleting leaves, if that is all digits. -/
theorem filter_trim (hdigits : ∀ b ∈ (content.dropWhile isSpace).rdropWhile isSpace,
      isDigit b = true) :
    content.filter (fun b => !isSpace b && b != 0) =
      (content.dropWhile isSpace).rdropWhile isSpace := by
  have hspace : ∀ {w : List UInt8}, (∀ b ∈ w, isSpace b = true) →
      w.filter (fun b => !isSpace b && b != 0) = [] := by
    intro w hw
    refine List.filter_eq_nil_iff.mpr fun b hb => ?_
    simp [hw b hb]
  have hsplit : content = content.takeWhile isSpace ++
      ((content.dropWhile isSpace).rdropWhile isSpace ++
        (content.dropWhile isSpace).rtakeWhile isSpace) := by
    rw [List.rdropWhile_append_rtakeWhile, List.takeWhile_append_dropWhile]
  calc content.filter (fun b => !isSpace b && b != 0)
      = (content.takeWhile isSpace ++ ((content.dropWhile isSpace).rdropWhile isSpace ++
          (content.dropWhile isSpace).rtakeWhile isSpace)).filter
            (fun b => !isSpace b && b != 0) := congrArg _ hsplit
    _ = (content.dropWhile isSpace).rdropWhile isSpace := by
        rw [List.filter_append, List.filter_append, hspace fun b hb => List.mem_takeWhile_imp hb,
          hspace fun b hb => List.mem_rtakeWhile_imp hb, List.nil_append, List.append_nil]
        exact List.filter_eq_self.mpr fun b hb => keep_digit (hdigits b hb)

theorem u32FromStr_lt (h : u32FromStr s = some v) : v < 2 ^ 32 :=
  ((guardedDecimal_eq_some (Nat.two_pow_pos 32)).mp h).2.2

theorem u32FromStr_unsigned (h : s.head? ≠ some 43) : u32FromStr s = some v ↔
    s ≠ [] ∧ (∀ b ∈ s, isDigit b = true) ∧ decimal s = v ∧ v < 2 ^ 32 := by
  simp only [u32FromStr, if_neg h]
  rw [guardedDecimal_eq_some (Nat.two_pow_pos 32), and_assoc]

theorem parseU32_numeral (hv : v < 2 ^ 32) : parseU32 (text (toString v)) = some v :=
  (checkedDecimal_eq_some (by decide)).mpr ⟨decimal_numeral v, hv⟩

/-- Where both accept the file they read the same digits. -/
theorem imageVersion_of_deploy (hdeploy : deployVersion content = some version)
    (himage : imageVersion content = some v) : decimal version = v ∧ v < 2 ^ 32 := by
  have hascii := ascii_of_deploy hdeploy
  have hbytes := byte_of_deploy hdeploy
  have htrim := trimChars_map hascii
  generalize hs : (content.dropWhile isSpace).rdropWhile isSpace = s at htrim
  have hmem : ∀ b ∈ s, b ∈ content := fun b hb => trimmed_mem (hs ▸ hb)
  have hemit : emitVersion content = u32FromStr s := by
    simp only [emitVersion, decodeUtf8_ascii hascii, htrim,
      encodeUtf8_ascii fun b hb => hascii b (hmem b hb)]
  obtain ⟨w, hw, hparse⟩ := Option.bind_eq_some_iff.mp himage
  rw [hemit] at hw
  have hsign : s.head? ≠ some 43 := by
    intro hhead
    have := hbytes 43 (hmem 43 (List.mem_of_head? hhead))
    revert this
    decide
  obtain ⟨-, hdigits, hvalue, hlt⟩ := (u32FromStr_unsigned hsign).mp hw
  rw [parseU32_numeral hlt] at hparse
  cases hparse
  obtain ⟨hversion, -, -⟩ := deployVersion_eq_some.mp hdeploy
  rw [hversion, filter_trim (hs ▸ hdigits), hs]
  exact ⟨hvalue, hlt⟩

/-! ## Names -/

theorem trim_versionFile (hdigits : ∀ b ∈ version, isDigit b = true) :
    trim (version ++ [10]) = version := by
  have htrim : trim ([] ++ version ++ [10]) = trim version :=
    trim_surrounded version (List.forall_mem_nil _) (List.forall_mem_singleton.mpr rfl)
  rw [← List.nil_append version, htrim]
  exact trim_eq_self fun b hb => not_whitespace_of_digit (hdigits b hb)

theorem parseVersion_versionFile (hne : version ≠ [])
    (hdigits : ∀ b ∈ version, isDigit b = true) (hlt : decimal version < 2 ^ 32) :
    parseVersion (release version).versionFile = some (decimal version) := by
  have htrim : trim (release version).versionFile = version := trim_versionFile hdigits
  rw [parseVersion_eq_some, htrim]
  exact ⟨⟨hne, hdigits⟩, rfl, hlt⟩

theorem numeral_length_u32 (hv : v < 2 ^ 32) : (numeral v).length ≤ 10 :=
  numeral_length (Nat.lt_trans hv (by decide))

theorem fileName_eq (hv : v < 2 ^ 32) {suffix : String} (hsuffix : (text suffix).length ≤ 38) :
    fileName v suffix = some (numeral v ++ text suffix) := by
  have hfits : ([numeral v, text suffix].flatten).length ≤ nameMaxBytes := by
    have := numeral_length_u32 hv
    simp only [List.flatten_cons, List.flatten_nil, List.length_append, List.append_nil]
    unfold nameMaxBytes
    omega
  obtain ⟨buf, hwrite⟩ := TextBuf.write_of_fits (.new : TextBuf nameMaxBytes)
    [numeral v, text suffix] (by rwa [TextBuf.new, List.length_nil, Nat.zero_add])
  have hname : fileName v suffix = some buf.asStr := by
    rw [fileName, show text (toString v) = numeral v from rfl, hwrite, Option.map_some]
  rw [hname, fileName_published hname]
  rfl

/-- Publisher and device agree exactly if the version has no leading zero. -/
theorem agrees_iff (hdeploy : deployVersion content = some version)
    (himage : imageVersion content = some v) :
    Agrees (release version) v ↔ Canonical version := by
  obtain ⟨-, hne, hdigits⟩ := deployVersion_eq_some.mp hdeploy
  obtain ⟨rfl, hlt⟩ := imageVersion_of_deploy hdeploy himage
  have hparse := parseVersion_versionFile hne hdigits hlt
  have hsha : fileName (decimal version) ".bin.sha256" = some _ := fileName_eq hlt (by decide)
  have hbin : fileName (decimal version) ".bin" = some _ := fileName_eq hlt (by decide)
  rw [← numeral_decimal_iff hne hdigits]
  constructor
  · rintro ⟨-, remote, hremote, -, hname, -⟩
    cases hparse.symm.trans hremote
    rw [hbin] at hname
    exact List.append_cancel_right (Option.some.inj hname)
  · intro hnumeral
    have hlength : (release version).versionFile.length ≤ versionMaxBytes := by
      have := numeral_length_u32 hlt
      rw [hnumeral] at this
      simp only [release, List.length_append, List.length_singleton]
      unfold versionMaxBytes
      omega
    refine ⟨hlength, decimal version, hparse, ?_, ?_, rfl, if_neg (not_not.mpr rfl)⟩
    · rw [hsha, hnumeral]
      rfl
    · rw [hbin, hnumeral]
      rfl

set_option maxRecDepth 4000 in
theorem agrees_iff_five : Agrees (release (text "5")) 5 ↔ Canonical (text "5") :=
  @agrees_iff (text "5\n") _ _ (by decide) (by decide)

set_option maxRecDepth 4000 in
/-- The version 007 is published under names that no device asks for. -/
theorem leading_zeros_published : deployVersion (text "007\n") = some (text "007") ∧
    imageVersion (text "007\n") = some 7 ∧ ¬ Agrees (release (text "007")) 7 := by
  refine ⟨by decide, by decide, ?_⟩
  rintro ⟨-, remote, hremote, -, hname, -⟩
  have hseven : parseVersion (release (text "007")).versionFile = some 7 := by decide
  cases hseven.symm.trans hremote
  exact absurd hname (by decide)

end

end Deploy
end GarageDoor
