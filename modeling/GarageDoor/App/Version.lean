/-
The version of an image, from the VERSION file to the broker and to the update server.

The device writes its version in decimal and reads the published one in decimal; the compiler
folds the same digits without a check.  All three agree on what a text of digits stands for.
-/
import GarageDoor.Core.Mqtt.Encode
import GarageDoor.Deploy

namespace GarageDoor
namespace App

open Library Ascii Ota Deploy Mqtt

/-- The `parse_u32` of `main.rs` as the release profile compiles it, without overflow
checks. -/
def parseU32Unchecked (s : Text) : UInt32 := s.foldl wrappingPush 0

/-- VERSION of an image: the digits that `build.rs` emits, folded at compile time. -/
def version (content : List UInt8) : Option UInt32 :=
  (emitVersion content).map fun n => parseU32Unchecked (numeral n)

/-! ## The writer -/

/-- With room for the digits, they take their place and the rest of the buffer is as before. -/
theorem writeU32_room {n : Nat} (v : UInt32) {pos : Nat} (buf : Vector UInt8 n)
    (hroom : pos + (numeral v.toNat).length ≤ n) :
    ∃ buf' : Vector UInt8 n,
      writeU32 v pos buf = .ok (pos + (numeral v.toNat).length) buf' ∧
      buf'.toList = buf.toList.take pos ++ numeral v.toNat ++
        buf.toList.drop (pos + (numeral v.toNat).length) := by
  have hpos : (buf.toList.take pos).length = pos := by
    rw [List.length_take, Vector.length_toList]
    omega
  have hlength : (buf.toList.take pos ++ numeral v.toNat).length =
      pos + (numeral v.toNat).length := by
    rw [List.length_append, hpos]
  have hstart : Wrote buf (buf.toList.take pos) (.ok pos buf) :=
    ⟨by omega, hpos.symm, (overwrite_take buf pos).symm⟩
  have hwrote : Wrote buf (buf.toList.take pos ++ numeral v.toNat) (writeU32 v pos buf) :=
    hstart.writeU32 v
  cases hout : writeU32 v pos buf with
  | ok stop buf' =>
    rw [hout] at hwrote
    obtain ⟨hle, hstop, hbuf⟩ := hwrote
    refine ⟨buf', by rw [hstop, hlength], ?_⟩
    rw [hbuf, overwrite_toList hle, hlength]
  | truncated buf' =>
    rw [hout] at hwrote
    have hshort : n < (buf.toList.take pos ++ numeral v.toNat).length := hwrote
    omega
  | panic =>
    rw [hout] at hwrote
    exact hwrote.elim

/-! ## The readers -/

theorem parseU32Unchecked_numeral (v : UInt32) : parseU32Unchecked (numeral v.toNat) = v := by
  rw [parseU32Unchecked, foldl_wrappingPush (isDigit_numeral v.toNat)]
  show UInt32.ofNat (decimal (numeral v.toNat)) = v
  rw [decimal_numeral, UInt32.ofNat_toNat]

theorem parseVersionAt_numeral (v : UInt32) {before after : Text}
    (hbefore : ∀ c ∈ before, isWhitespace c = true)
    (hafter : ∀ c ∈ after, isWhitespace c = true) :
    parseVersionAt (before ++ numeral v.toNat ++ after) = some (some v) := by
  have htrim : trim (numeral v.toNat) = numeral v.toNat :=
    trim_eq_self fun c hc => not_whitespace_of_digit (isDigit_numeral v.toNat c hc)
  rw [parseVersionAt_eq_some, trim_surrounded _ hbefore hafter, htrim]
  exact ⟨⟨numeral_ne_nil _, isDigit_numeral _⟩, decimal_numeral _⟩

/-- What is no number, or none below `2 ^ 32`, is refused, however long it is. -/
theorem parseVersionAt_refused {body : List UInt8} : parseVersionAt body = some none ↔
    ¬ ((trim body ≠ [] ∧ ∀ c ∈ trim body, isDigit c = true) ∧ decimal (trim body) < 2 ^ 32) := by
  rw [parseVersionAt_eq, Option.some.injEq, Option.map_eq_none_iff, ← not_iff_not, not_not,
    ← ne_eq, Option.ne_none_iff_exists']
  constructor
  · intro ⟨v, hv⟩
    obtain ⟨hdigits, rfl, hlt⟩ := parseVersion_eq_some.mp hv
    exact ⟨hdigits, hlt⟩
  · intro ⟨hdigits, hlt⟩
    exact ⟨_, parseVersion_eq_some.mpr ⟨hdigits, rfl, hlt⟩⟩

/-! ## Reported and published -/

theorem emitVersion_lt {content : List UInt8} {n : Nat} (h : emitVersion content = some n) :
    n < 2 ^ 32 := by
  simp only [emitVersion] at h
  split at h
  · cases h
  · exact u32FromStr_lt h

/-- The image that is built from a VERSION file has the version that is published with it. -/
theorem published_version {content published : List UInt8} {v : UInt32}
    (hdeploy : deployVersion content = some published) (hversion : version content = some v) :
    parseVersionAt (release published).versionFile = some (some v) := by
  obtain ⟨n, hemit, hv⟩ := Option.map_eq_some_iff.mp hversion
  have hlt : n < 2 ^ 32 := emitVersion_lt hemit
  have himage : imageVersion content = some n := by
    rw [imageVersion, hemit]
    exact parseU32_numeral hlt
  obtain ⟨-, hne, hdigits⟩ := deployVersion_eq_some.mp hdeploy
  obtain ⟨hvalue, -⟩ := imageVersion_of_deploy hdeploy himage
  have hfold := parseU32Unchecked_numeral (UInt32.ofNat n)
  rw [UInt32.toNat_ofNat_of_lt' hlt, hv] at hfold
  rw [parseVersionAt_eq, parseVersion_versionFile hne hdigits (hvalue ▸ hlt), hvalue, hfold]
  rfl

/-- The codecs for versions agree: the device writes the numeral of its version, the update
check and the compiler read every numeral back, a version is read exactly from the texts of its
digits, and what is published for an image is what the image reports. -/
theorem version_codecs_agree :
    (∀ {n : Nat} (v : UInt32) (pos : Nat) (buf : Vector UInt8 n),
      pos + (numeral v.toNat).length ≤ n → ∃ buf' : Vector UInt8 n,
        writeU32 v pos buf = .ok (pos + (numeral v.toNat).length) buf' ∧
        buf'.toList = buf.toList.take pos ++ numeral v.toNat ++
          buf.toList.drop (pos + (numeral v.toNat).length)) ∧
    (∀ v : UInt32, numeral v.toNat ≠ [] ∧ (∀ c ∈ numeral v.toNat, isDigit c = true) ∧
      Canonical (numeral v.toNat) ∧ decimal (numeral v.toNat) = v.toNat) ∧
    (∀ (v : UInt32) (before after : Text), (∀ c ∈ before, isWhitespace c = true) →
      (∀ c ∈ after, isWhitespace c = true) →
      parseVersionAt (before ++ numeral v.toNat ++ after) = some (some v)) ∧
    (∀ v : UInt32, parseU32Unchecked (numeral v.toNat) = v ∧
      parseU32 (numeral v.toNat) = some v.toNat) ∧
    (∀ (body : List UInt8) (v : UInt32), parseVersionAt body = some (some v) ↔
      (trim body ≠ [] ∧ ∀ c ∈ trim body, isDigit c = true) ∧ decimal (trim body) = v.toNat) ∧
    (∀ body : List UInt8, parseVersionAt body = some none ↔
      ¬ ((trim body ≠ [] ∧ ∀ c ∈ trim body, isDigit c = true) ∧
        decimal (trim body) < 2 ^ 32)) ∧
    (∀ (content published : List UInt8) (v : UInt32), deployVersion content = some published →
      version content = some v → ∃ remote : UInt32,
        parseVersionAt (release published).versionFile = some (some remote) ∧
        parseVersionAt (numeral v.toNat) = some (some remote) ∧
        decide v.toNat remote.toNat = .skip) := by
  refine ⟨?_, ?_, ?_, ?_, ?_, ?_, ?_⟩
  · intro n v pos buf hroom
    exact writeU32_room v buf hroom
  · intro v
    exact ⟨numeral_ne_nil _, isDigit_numeral _, numeral_canonical _, decimal_numeral _⟩
  · intro v before after hbefore hafter
    exact parseVersionAt_numeral v hbefore hafter
  · intro v
    exact ⟨parseU32Unchecked_numeral v, parseU32_numeral v.toNat_lt⟩
  · intro body v
    exact parseVersionAt_eq_some
  · intro body
    exact parseVersionAt_refused
  · intro content published v hdeploy hversion
    have hreported : parseVersionAt ([] ++ numeral v.toNat ++ []) = some (some v) :=
      parseVersionAt_numeral v (by simp) (by simp)
    rw [List.nil_append, List.append_nil] at hreported
    exact ⟨v, published_version hdeploy hversion, hreported, if_neg (fun h => h rfl)⟩

end App
end GarageDoor
