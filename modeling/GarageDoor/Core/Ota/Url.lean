/-
The grammar of the base URL, and the request target it stands for.

`parse_url` accepts a base URL and a project exactly when they are of this grammar, and
the target's own text parses back to the target.
-/
import GarageDoor.Core.Ota.Policy
import GarageDoor.Library.Buffer
import GarageDoor.Library.Numeral
import GarageDoor.Library.Split

namespace GarageDoor
namespace Ota

open Library Ascii

/-! ## The grammar -/

abbrev portColon : UInt8 := 58

/-- The parts of a base URL; `trailing` is what follows the authority. -/
structure UrlParts where
  scheme : Text
  authority : Text
  trailing : Text
  host : Text
  port : Nat

namespace UrlParts

def tls (u : UrlParts) : Bool := u.scheme == text "https"

def segments (u : UrlParts) : List Text := pieces slash u.trailing

end UrlParts

/-- A host, with a port text behind its last colon or with the port of the scheme. -/
inductive Authority (tls : Bool) : Text → Text → Nat → Prop where
  | bare {host} (h : portColon ∉ host) : Authority tls host host (if tls then 443 else 80)
  | withPort {host digits port} (hlast : portColon ∉ digits) (hport : parseU16 digits = some port)
      (hpos : port ≠ 0) : Authority tls (host ++ portColon :: digits) host port

/-- `base` has these parts, and they make a target together with `project`. -/
structure UrlParts.Accepted (u : UrlParts) (base project : Text) : Prop where
  split : SplitsFirst (text "://") base u.scheme (u.authority ++ u.trailing)
  scheme : u.scheme = text "https" ∨ u.scheme = text "http"
  slashless : slash ∉ u.authority
  trailing : ∀ b ∈ u.trailing.head?, b = slash
  authority : Authority u.tls u.authority u.host u.port
  host_ne : u.host ≠ []
  host_valid : ∀ b ∈ u.host, validHostByte b = true
  segments_valid : ∀ s ∈ u.segments, ∀ b ∈ s, validHostByte b = true
  project_ne : project ≠ []
  project_valid : ∀ b ∈ project, validHostByte b = true
  fits : ((u.segments ++ [project]).map fun s => 1 + s.length).sum ≤ pathBytes

/-- The target has these parts. -/
structure Uri.Shows (uri : Uri) (u : UrlParts) (project : Text) : Prop where
  tls : uri.tls = u.tls
  host : uri.host = u.host
  port : uri.port = u.port
  path : uri.pathText = joined slash (u.segments ++ [project])

/-! ## The authority -/

theorem hostAndPort_eq_ok {authority host : Text} {tls : Bool} {port : Nat} :
    hostAndPort authority tls = .ok (host, port) ↔ Authority tls authority host port := by
  unfold hostAndPort
  cases hsplit : rsplitOnce portColon authority with
  | none =>
    have hnot := rsplitOnce_eq_none.mp hsplit
    constructor
    · intro h
      cases h
      exact .bare hnot
    · intro h
      cases h with
      | bare _ => rfl
      | withPort _ _ _ => simp at hnot
  | some split =>
    obtain ⟨front, digits⟩ := split
    obtain ⟨rfl, hlast⟩ := rsplitOnce_eq_some.mp hsplit
    constructor
    · intro h
      cases hport : parseU16 digits with
      | none => simp [hport] at h
      | some value =>
        by_cases hzero : value = 0
        · simp [hport, hzero] at h
        · simp only [hport, if_neg hzero, Except.ok.injEq, Prod.mk.injEq] at h
          obtain ⟨rfl, rfl⟩ := h
          exact .withPort hlast hport hzero
    · intro h
      generalize hwhole : front ++ portColon :: digits = whole at h
      cases h with
      | bare hnot => exact absurd (hwhole ▸ by simp) hnot
      | @withPort host digits' port hlast' hport hpos =>
        have hsplit' : rsplitOnce portColon (host ++ portColon :: digits') = some (host, digits') :=
          rsplitOnce_append hlast'
        rw [← hwhole, hsplit] at hsplit'
        cases hsplit'
        simp only [hport, if_neg hpos]

theorem parseAuthority_eq_ok {authority host : Text} {tls : Bool} {port : Nat} :
    parseAuthority authority tls = .ok (host, port) ↔
      Authority tls authority host port ∧ host ≠ [] ∧ ∀ b ∈ host, validHostByte b = true := by
  rw [← hostAndPort_eq_ok, parseAuthority]
  cases hostAndPort authority tls with
  | error e => simp
  | ok found =>
    obtain ⟨host', port'⟩ := found
    by_cases hbad : host' = [] ∨ ¬ host'.all validHostByte = true
    · simp only [if_pos hbad, reduceCtorEq, false_iff, Except.ok.injEq, Prod.mk.injEq]
      intro ⟨⟨hhost, _⟩, hne, hvalid⟩
      subst hhost
      rcases hbad with hnil | hall
      · exact hne hnil
      · exact hall (List.all_eq_true.mpr hvalid)
    · simp only [if_neg hbad, Except.ok.injEq, Prod.mk.injEq]
      rw [not_or, not_not] at hbad
      constructor
      · intro ⟨hhost, hport⟩
        subst hhost
        exact ⟨⟨rfl, hport⟩, hbad.1, List.all_eq_true.mp hbad.2⟩
      · exact And.left

theorem parseU16_lt {s : Text} {port : Nat} (h : parseU16 s = some port) : port < 2 ^ 16 :=
  ((guardedDecimal_eq_some (Nat.two_pow_pos 16)).mp h).2.2

/-- The numeral of a port is read back as the port. -/
theorem parseU16_numeral {port : Nat} (h : port < 2 ^ 16) :
    parseU16 (numeral port) = some port := by
  have hsign : (numeral port).head? ≠ some 43 := by
    intro hhead
    exact absurd (isDigit_numeral port 43 (List.mem_of_mem_head? hhead)) (by decide)
  unfold parseU16
  rw [if_neg hsign]
  exact (guardedDecimal_eq_some (Nat.two_pow_pos 16)).mpr
    ⟨⟨numeral_ne_nil port, isDigit_numeral port⟩, decimal_numeral port, h⟩

theorem Authority.port_range {tls : Bool} {authority host : Text} {port : Nat}
    (h : Authority tls authority host port) : port ≠ 0 ∧ port < 2 ^ 16 := by
  cases h with
  | bare _ => cases tls <;> decide
  | withPort _ hport hpos => exact ⟨hpos, parseU16_lt hport⟩

/-! ## The path -/

theorem UriPath.eq_of_bytes {p q : UriPath} (h : p.bytes = q.bytes) : p = q := by
  cases p
  cases q
  cases h
  rfl

theorem validSegment_iff {s : Text} :
    validSegment s = true ↔ s ≠ [] ∧ ∀ b ∈ s, validHostByte b = true := by
  simp [validSegment]

theorem UriPath.push_ok {path : UriPath} {s : Text}
    (h : path.bytes.length + 1 + s.length ≤ pathBytes ∧ validSegment s = true) :
    ∃ path', path.push s = .ok path' ∧ path'.bytes = path.bytes ++ slash :: s :=
  ⟨_, dif_pos h, rfl⟩

theorem UriPath.push_error {path : UriPath} {s : Text}
    (h : ¬ (path.bytes.length + 1 + s.length ≤ pathBytes ∧ validSegment s = true)) :
    path.push s = .error .path :=
  dif_neg h

/-- The path takes segments as long as they are valid and fit. -/
theorem foldlM_push_eq_ok {segments : List Text} {path path' : UriPath} :
    segments.foldlM UriPath.push path = .ok path' ↔
      (∀ s ∈ segments, validSegment s = true) ∧
        path.bytes.length + (segments.map fun s => 1 + s.length).sum ≤ pathBytes ∧
        path'.bytes = path.bytes ++ joined slash segments := by
  induction segments generalizing path with
  | nil =>
    show Except.ok path = .ok path' ↔ _
    constructor
    · intro h
      cases h
      exact ⟨by simp, path'.length_le, by simp [joined]⟩
    · rintro ⟨_, _, hbytes⟩
      rw [UriPath.eq_of_bytes (p := path') (q := path) (by simpa [joined] using hbytes)]
  | cons s segments ih =>
    rw [List.foldlM_cons]
    by_cases hs : path.bytes.length + 1 + s.length ≤ pathBytes ∧ validSegment s = true
    · obtain ⟨next, hpush, hbytes⟩ := UriPath.push_ok hs
      rw [hpush]
      show segments.foldlM UriPath.push next = _ ↔ _
      rw [ih, hbytes]
      simp only [List.length_append, List.length_cons, List.map_cons, List.sum_cons,
        List.forall_mem_cons, joined, List.flatMap_cons, List.append_assoc]
      constructor
      · rintro ⟨hvalid, hlength, hjoined⟩
        exact ⟨⟨hs.2, hvalid⟩, by omega, hjoined⟩
      · rintro ⟨hvalid, hlength, hjoined⟩
        exact ⟨hvalid.2, by omega, hjoined⟩
    · rw [UriPath.push_error hs]
      show Except.error _ = _ ↔ _
      constructor
      · intro h
        cases h
      · rintro ⟨hvalid, hlength, _⟩
        rw [List.map_cons, List.sum_cons] at hlength
        exact absurd ⟨by omega, hvalid s List.mem_cons_self⟩ hs

/-! ## The path in its buffer -/

/-- How filling the path buffer ends.  An index out of range panics. -/
inductive Assembly where
  | filled (path : Vector UInt8 pathBytes) (len : Nat)
  | rejected
  | panic

/-- The loop of `parse_url` over the segments and the project. -/
def assemble : List Text → Vector UInt8 pathBytes → Nat → Assembly
  | [], path, len => .filled path len
  | segment :: segments, path, len =>
    if pathBytes < len + 1 + segment.length ∨ ¬ validSegment segment then
      .rejected
    else
      match setAt path len slash with
      | none => .panic
      | some path =>
        let len := len + 1
        match copySlice path len (len + segment.length) segment with
        | none => .panic
        | some path => assemble segments path (len + segment.length)

def zeroPath : Vector UInt8 pathBytes := Vector.replicate pathBytes 0

/-- The buffer holds the path that is pushed segment by segment, and is never overrun. -/
theorem assemble_eq (segments : List Text) (path : UriPath) :
    assemble segments (overwrite zeroPath path.bytes) path.bytes.length =
      match segments.foldlM UriPath.push path with
      | .ok path' => .filled (overwrite zeroPath path'.bytes) path'.bytes.length
      | .error _ => .rejected := by
  induction segments generalizing path with
  | nil => rfl
  | cons s segments ih =>
    rw [assemble, List.foldlM_cons]
    by_cases hs : path.bytes.length + 1 + s.length ≤ pathBytes ∧ validSegment s = true
    · have hroom : path.bytes.length < pathBytes := by omega
      have hfits : (path.bytes ++ [slash]).length + s.length ≤ pathBytes := by
        rw [List.length_append, List.length_singleton]
        omega
      have hcopy := @copySlice_overwrite _ _ zeroPath _ _ hfits
      rw [List.length_append, List.length_singleton] at hcopy
      have hpass : ¬ (pathBytes < path.bytes.length + 1 + s.length ∨ ¬ validSegment s = true) := by
        rw [not_or, not_not, Nat.not_lt]
        exact hs
      obtain ⟨next, hpush, hbytes⟩ := UriPath.push_ok hs
      have hwhole : (path.bytes ++ [slash]) ++ s = next.bytes := by
        rw [hbytes, List.append_assoc]
        rfl
      have hlength : path.bytes.length + 1 + s.length = next.bytes.length := by
        rw [hbytes, List.length_append, List.length_cons]
        omega
      rw [if_neg hpass, hpush]
      simp only [setAt_overwrite hroom, hcopy]
      rw [hwhole, hlength, ih next]
      rfl
    · have hreject : pathBytes < path.bytes.length + 1 + s.length ∨ ¬ validSegment s = true := by
        rwa [not_and_or, Nat.not_le] at hs
      rw [if_pos hreject, UriPath.push_error hs]
      rfl

theorem assemble_zero (segments : List Text) :
    assemble segments zeroPath 0 =
      match segments.foldlM UriPath.push .empty with
      | .ok path => .filled (overwrite zeroPath path.bytes) path.bytes.length
      | .error _ => .rejected := by
  have h := assemble_eq segments .empty
  rwa [show UriPath.empty.bytes = [] from rfl, overwrite_nil] at h

/-! ## The whole URL -/

theorem parts_authority {rest : Text} {u : UrlParts} (hslash : slash ∉ u.authority)
    (htrailing : ∀ b ∈ u.trailing.head?, b = slash) (hrest : rest = u.authority ++ u.trailing) :
    rest.takeWhile (· != slash) = u.authority ∧ rest.dropWhile (· != slash) = u.trailing :=
  takeWhile_dropWhile_ne.mpr ⟨hrest, hslash, htrailing⟩

section

variable {base project : Text} {uri : Uri} {u : UrlParts}

/-- Only the length of the path is left to be decided by an accepted URL. -/
theorem UrlParts.Accepted.parse (h : u.Accepted base project) {path : UriPath}
    (hpath : (u.segments ++ [project]).foldlM UriPath.push .empty = .ok path) :
    parseUrl base project = .ok { tls := u.tls, host := u.host, port := u.port, path } := by
  have hsplit := (splitOnce_eq_some (by decide)).mpr h.split
  have hscheme : ¬ (u.scheme ≠ text "https" ∧ u.scheme ≠ text "http") := by
    rcases h.scheme with hs | hs <;> simp [hs]
  have hproject : validSegment project = true :=
    validSegment_iff.mpr ⟨h.project_ne, h.project_valid⟩
  obtain ⟨hauthority, htrailing⟩ := parts_authority h.slashless h.trailing rfl
  have hhost := parseAuthority_eq_ok.mpr ⟨h.authority, h.host_ne, h.host_valid⟩
  unfold UrlParts.tls at hhost
  simp only [parseUrl, hsplit, if_neg hscheme, hproject, hauthority, htrailing, hhost]
  rw [if_neg (by simp)]
  simp only [show (List.splitOn slash u.trailing).filter (!·.isEmpty) = u.segments from rfl, hpath]
  rfl

theorem UrlParts.Accepted.segment (h : u.Accepted base project) :
    ∀ s ∈ u.segments ++ [project], s ≠ [] ∧ ∀ b ∈ s, validHostByte b = true := by
  intro s hs
  rcases List.mem_append.mp hs with hs | hs
  · exact ⟨ne_nil_of_mem_pieces hs, h.segments_valid s hs⟩
  · rw [List.mem_singleton.mp hs]
    exact ⟨h.project_ne, h.project_valid⟩

/-- The segments and the project fit the path together. -/
theorem UrlParts.Accepted.path (h : u.Accepted base project) :
    ∃ path : UriPath, (u.segments ++ [project]).foldlM UriPath.push .empty = .ok path ∧
      path.bytes = joined slash (u.segments ++ [project]) := by
  have hclean : ∀ b ∈ joined slash (u.segments ++ [project]),
      b = slash ∨ validHostByte b = true := by
    intro b hb
    rcases mem_joined hb with hb | ⟨s, hs, hb⟩
    · exact .inl hb
    · exact .inr ((h.segment s hs).2 b hb)
  refine ⟨⟨joined slash (u.segments ++ [project]), ?_, hclean⟩, ?_, rfl⟩
  · rw [length_joined]
    exact h.fits
  · rw [foldlM_push_eq_ok]
    refine ⟨fun s hs => validSegment_iff.mpr (h.segment s hs), ?_, rfl⟩
    rw [show UriPath.empty.bytes.length = 0 from rfl, Nat.zero_add]
    exact h.fits

/-- What a parse that succeeds has gone through. -/
theorem parseUrl_steps (h : parseUrl base project = .ok uri) :
    ∃ scheme rest host port path, splitOnce (text "://") base = some (scheme, rest) ∧
      (scheme = text "https" ∨ scheme = text "http") ∧ validSegment project = true ∧
      parseAuthority (rest.takeWhile (· != slash)) (scheme == text "https") = .ok (host, port) ∧
      (pieces slash (rest.dropWhile (· != slash)) ++ [project]).foldlM UriPath.push .empty =
        .ok path ∧
      uri = { tls := scheme == text "https", host, port, path } := by
  unfold parseUrl at h
  cases hsplit : splitOnce (text "://") base with
  | none => simp [hsplit] at h
  | some split =>
    obtain ⟨scheme, rest⟩ := split
    simp only [hsplit] at h
    by_cases hscheme : scheme ≠ text "https" ∧ scheme ≠ text "http"
    · rw [if_pos hscheme] at h
      cases h
    rw [if_neg hscheme] at h
    have hscheme : scheme = text "https" ∨ scheme = text "http" := by
      by_cases hs : scheme = text "https"
      · exact .inl hs
      · exact .inr (not_not.mp fun hn => hscheme ⟨hs, hn⟩)
    by_cases hproject : validSegment project = true
    · rw [if_neg (not_not.mpr hproject)] at h
      cases hauthority : parseAuthority (rest.takeWhile (· != slash)) (scheme == text "https") with
      | error e => simp [hauthority] at h
      | ok found =>
        obtain ⟨host, port⟩ := found
        simp only [hauthority] at h
        cases hpath : (pieces slash (rest.dropWhile (· != slash)) ++ [project]).foldlM
            UriPath.push .empty with
        | error e =>
          unfold pieces at hpath
          simp [hpath] at h
        | ok path =>
          refine ⟨scheme, rest, host, port, path, rfl, hscheme, hproject, hauthority, hpath, ?_⟩
          unfold pieces at hpath
          simp only [hpath, Except.ok.injEq] at h
          exact h.symm
    · rw [if_pos hproject] at h
      cases h

/-- What is parsed has the parts that the grammar asks for. -/
theorem accepted_of_parseUrl (h : parseUrl base project = .ok uri) :
    ∃ u : UrlParts, u.Accepted base project ∧ uri.Shows u project := by
  obtain ⟨scheme, rest, host, port, path, hsplit, hscheme, hproject, hauthority, hpath, rfl⟩ :=
    parseUrl_steps h
  obtain ⟨hvalid, hfits, hbytes⟩ := foldlM_push_eq_ok.mp hpath
  obtain ⟨hnames, hne, hhost⟩ := parseAuthority_eq_ok.mp hauthority
  have hparts : rest = rest.takeWhile (· != slash) ++ rest.dropWhile (· != slash) ∧
      slash ∉ rest.takeWhile (· != slash) ∧
      ∀ b ∈ (rest.dropWhile (· != slash)).head?, b = slash :=
    takeWhile_dropWhile_ne.mp ⟨rfl, rfl⟩
  obtain ⟨hrest, hslash, htrailing⟩ := hparts
  have hfirst : SplitsFirst (text "://") base scheme
      (rest.takeWhile (· != slash) ++ rest.dropWhile (· != slash)) := by
    rw [← hrest]
    exact (splitOnce_eq_some (by decide)).mp hsplit
  refine ⟨{ scheme, authority := rest.takeWhile (· != slash),
            trailing := rest.dropWhile (· != slash), host, port }, ?_, ?_⟩
  · exact
      { split := hfirst
        scheme := hscheme
        slashless := hslash
        trailing := htrailing
        authority := hnames
        host_ne := hne
        host_valid := hhost
        segments_valid := fun s hs =>
          (validSegment_iff.mp (hvalid s (List.mem_append_left _ hs))).2
        project_ne := (validSegment_iff.mp hproject).1
        project_valid := (validSegment_iff.mp hproject).2
        fits := by
          rwa [show UriPath.empty.bytes.length = 0 from rfl, Nat.zero_add] at hfits }
  · exact ⟨rfl, rfl, rfl, (Uri.pathText_eq _).trans hbytes⟩

/-! ## The target's own text -/

theorem not_slash_of_valid {b : UInt8} (h : validHostByte b = true) : b ≠ slash := by
  rintro rfl
  exact absurd h (by decide)

theorem not_mem_numeral {b : UInt8} (h : isDigit b = false) (v : Nat) : b ∉ numeral v := by
  intro hb
  rw [isDigit_numeral v b hb] at h
  cases h

/-- The parts of a target's own text: the port is always written and no segment is empty. -/
def UrlParts.normal (u : UrlParts) : UrlParts :=
  { u with
    authority := u.host ++ portColon :: numeral u.port
    trailing := joined slash u.segments }

/-- The text `scheme://host:port/segments`. -/
def UrlParts.text (u : UrlParts) : Text :=
  u.scheme ++ (Ascii.text "://" ++
    (u.host ++ portColon :: numeral u.port ++ joined slash u.segments))

theorem UrlParts.Accepted.normal_segments (h : u.Accepted base project) :
    u.normal.segments = u.segments := by
  refine pieces_joined fun s hs => ⟨ne_nil_of_mem_pieces hs, fun hslash => ?_⟩
  exact not_slash_of_valid (h.segments_valid s hs slash hslash) rfl

theorem UrlParts.Accepted.normal (h : u.Accepted base project) :
    u.normal.Accepted u.text project := by
  have hcolon : portColon ∉ u.scheme := by
    rcases h.scheme with hs | hs <;> rw [hs] <;> decide
  have hsegments := h.normal_segments
  have hport := h.authority.port_range
  exact
    { split := splitsFirst_of_not_mem hcolon
      scheme := h.scheme
      slashless := by
        show slash ∉ u.host ++ portColon :: numeral u.port
        rw [List.mem_append, List.mem_cons, not_or, not_or]
        exact ⟨fun hb => not_slash_of_valid (h.host_valid slash hb) rfl, by decide,
          not_mem_numeral (by decide) _⟩
      trailing := head_joined slash u.segments
      authority := .withPort (not_mem_numeral (by decide) _) (parseU16_numeral hport.2) hport.1
      host_ne := h.host_ne
      host_valid := h.host_valid
      segments_valid := by
        rw [hsegments]
        exact h.segments_valid
      project_ne := h.project_ne
      project_valid := h.project_valid
      fits := by
        rw [hsegments]
        exact h.fits }

/-- `parse_url` accepts exactly its grammar.  The path never overruns its buffer and is
read back whole, and the target's own text parses to the target. -/
theorem parseUrl_grammar (base project : Text) :
    ((∃ uri, parseUrl base project = .ok uri) ↔ ∃ u : UrlParts, u.Accepted base project) ∧
      (∀ segments, assemble segments zeroPath 0 ≠ .panic) ∧
      ∀ uri, parseUrl base project = .ok uri →
        ∃ u : UrlParts, u.Accepted base project ∧ uri.Shows u project ∧
          (∃ buf len, assemble (u.segments ++ [project]) zeroPath 0 = .filled buf len ∧
            fromUtf8 (buf.toList.take len) = some uri.pathText) ∧
          ∃ dir, uri.pathText = dir ++ slash :: project ∧ slash ∉ project ∧
            parseUrl (u.scheme ++ text "://" ++ uri.host ++ text ":" ++ numeral uri.port ++ dir)
              project = .ok uri := by
  refine ⟨⟨?_, ?_⟩, ?_, ?_⟩
  · intro ⟨uri, h⟩
    obtain ⟨u, hu, _⟩ := accepted_of_parseUrl h
    exact ⟨u, hu⟩
  · intro ⟨u, h⟩
    obtain ⟨path, hpath, _⟩ := h.path
    exact ⟨_, h.parse hpath⟩
  · intro segments
    rw [assemble_zero]
    cases List.foldlM UriPath.push .empty segments <;> simp
  · intro uri h
    obtain ⟨u, hu, hshows⟩ := accepted_of_parseUrl h
    obtain ⟨path, hpath, hbytes⟩ := hu.path
    obtain rfl : _ = uri := Except.ok.inj ((hu.parse hpath).symm.trans h)
    have hwhole : (⟨u.tls, u.host, u.port, path⟩ : Uri).pathText = path.bytes := Uri.pathText_eq _
    refine ⟨u, hu, hshows, ⟨overwrite zeroPath path.bytes, path.bytes.length, ?_, ?_⟩,
      joined slash u.segments, ?_, ?_, ?_⟩
    · rw [assemble_zero, hpath]
    · rw [take_overwrite path.length_le, hwhole]
      exact fromUtf8_of_valid path.utf8
    · rw [hwhole, hbytes, joined_append, joined_singleton]
    · exact fun hb => not_slash_of_valid (hu.project_valid slash hb) rfl
    -- The target's own text has the normal parts, with the same path behind them.
    · have hagain : (u.normal.segments ++ [project]).foldlM UriPath.push .empty = .ok path := by
        rw [hu.normal_segments]
        exact hpath
      have hparse := hu.normal.parse hagain
      have htext : u.scheme ++ text "://" ++ u.host ++ text ":" ++ numeral u.port ++
          joined slash u.segments = u.text := by
        rw [UrlParts.text, show text ":" = [portColon] by decide]
        simp
      rw [htext]
      exact hparse

end

end Ota
end GarageDoor
