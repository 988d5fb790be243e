/-
The UF2 image that puts a device into service.

`build` reads every file twice, to size the image and to fill it, and cuts the image
into blocks.  A placement carries the contents of its file.
-/
import GarageDoor.Library.Slice
import Mathlib.Order.Bounds.Basic
import Mathlib.Algebra.Group.Int.Defs

namespace GarageDoor
namespace Scripts

open Library

def magic0 : Nat := 0x0A324655
def magic1 : Nat := 0x9E5D5157
def magicE : Nat := 0x0AB16F30
def flagFamily : Nat := 0x00002000
def rp2040Family : Nat := 0xE48BFF56
def payloadBytes : Nat := 256

/-- Format `I` of `struct.pack`, which raises on a value that 32 bits do not hold. -/
def packWord (v : Int) : Option (List UInt8) :=
  if 0 ≤ v ∧ v < 2 ^ 32 then some (toLe 4 v.toNat) else none

/-- `struct.pack_into` with a format of as many `I` as there are values. -/
def packInto (block : List UInt8) (off : Nat) (values : List Int) : Option (List UInt8) := do
  let words ← values.mapM packWord
  let stop := off + 4 * values.length
  if stop ≤ block.length then some (setSlice block off stop words.flatten) else none

def buildBlock (base : Int) (image : List UInt8) (total n : Nat) : Option (List UInt8) := do
  let addr := base + n * payloadBytes
  let block := List.replicate 512 0
  let block ← packInto block 0
    [magic0, magic1, flagFamily, addr, payloadBytes, n, total, rp2040Family]
  let payload := slice image (n * payloadBytes) ((n + 1) * payloadBytes)
  packInto (setSlice block 32 (32 + payloadBytes) payload) 508 [magicE]

/-- The first pass over the placements. -/
def imageEnd (pairs : List (Placement UInt8)) : Nat :=
  pairs.foldl (fun stop p => max stop (p.off + p.data.length)) 0

structure Uf2 where
  bytes : List UInt8
  total : Nat
  stop : Nat
  deriving DecidableEq, Repr

def build (base : Int) (pairs : List (Placement UInt8)) : Option Uf2 := do
  let stop := (imageEnd pairs + payloadBytes - 1) / payloadBytes * payloadBytes
  let image := fill (List.replicate stop 0) pairs
  let total := stop / payloadBytes
  let out ← (List.range total).foldlM (fun out n => do
    let block ← buildBlock base image total n
    pure (out ++ block)) []
  pure { bytes := out, total, stop }

/-! ## What a block says -/

/-- Format `I` repeated, with `struct.unpack`. -/
def unpack (count : Nat) (bytes : List UInt8) : Option (List Nat) :=
  if bytes.length = 4 * count then
    some ((List.range count).map fun i => ofLe (slice bytes (4 * i) (4 * (i + 1))))
  else
    none

structure Block where
  m0 : Nat
  m1 : Nat
  flags : Nat
  addr : Nat
  size : Nat
  no : Nat
  tot : Nat
  family : Nat
  payload : List UInt8
  me : Nat
  deriving DecidableEq, Repr

/-- A block as `_selftest` takes it apart. -/
def decodeBlock (block : List UInt8) : Option Block := do
  let header ← unpack 8 (slice block 0 32)
  let last ← unpack 1 (slice block 508 512)
  match header, last with
  | [m0, m1, flags, addr, size, no, tot, family], [me] =>
    let payload := slice block 32 (32 + payloadBytes)
    some { m0, m1, flags, addr, size, no, tot, family, payload, me }
  | _, _ => none

/-- The block of number `n` in the file. -/
def Uf2.block (u : Uf2) (n : Nat) : Option Block :=
  decodeBlock (slice u.bytes (512 * n) (512 * (n + 1)))

/-- The payloads of the blocks in order. -/
def Uf2.image (u : Uf2) : List UInt8 :=
  (List.range u.total).flatMap fun n => ((u.block n).map Block.payload).getD []

/-- What is asked of the file for an image that ends at `stop`. -/
structure Lossless (base : Int) (pairs : List (Placement UInt8)) (stop : Nat) (u : Uf2) :
    Prop where
  length : u.bytes.length = 512 * u.total
  total : stop ≤ 256 * u.total ∧ 256 * u.total < stop + 256
  blocks : ∀ n < u.total, ∃ block, u.block n = some block ∧
    block.m0 = magic0 ∧ block.m1 = magic1 ∧ block.me = magicE ∧
    block.flags = flagFamily ∧ block.family = rp2040Family ∧ block.size = 256 ∧
    (block.addr : Int) = base + 256 * n ∧ block.no = n ∧ block.tot = u.total
  image : u.image.length = 256 * u.total
  placed : ∀ p ∈ pairs, slice u.image p.off (p.off + p.data.length) = p.data
  gaps : ∀ i < u.image.length, (∀ p ∈ pairs, i ∉ p.span) → u.image[i]? = some 0

/-! ## One block -/

section

variable {base : Int} {image payload : List UInt8} {total n : Nat} {values : List Nat}

theorem packWord_natCast {v : Nat} (h : v < 2 ^ 32) : packWord v = some (toLe 4 v) := by
  rw [packWord, if_pos ⟨Int.natCast_nonneg v, by exact_mod_cast h⟩, Int.toNat_natCast]

/-- The bytes of a row of words. -/
def packed (values : List Nat) : List UInt8 := values.flatMap (toLe 4)

theorem length_packed (values : List Nat) : (packed values).length = 4 * values.length :=
  length_flatMap_blocks fun v _ => length_toLe 4 v

theorem mapM_packWord (h : ∀ v ∈ values, v < 2 ^ 32) :
    (values.map Nat.cast).mapM packWord = some (values.map (toLe 4)) := by
  induction values with
  | nil => rfl
  | cons v values ih =>
    have hcons := List.forall_mem_cons.mp h
    rw [List.map_cons, List.mapM_cons, packWord_natCast hcons.1, ih hcons.2]
    rfl

theorem packInto_eq_none {block : List UInt8} {off : Nat} {values : List Int} {v : Int}
    (hv : v ∈ values) (h : packWord v = none) : packInto block off values = none := by
  have hnone : values.mapM packWord = none := by
    induction values with
    | nil => exact (List.not_mem_nil hv).elim
    | cons w values ih =>
      rw [List.mapM_cons]
      rcases List.mem_cons.mp hv with rfl | hv
      · rw [h]
        rfl
      · rw [ih hv]
        cases packWord w <;> rfl
  rw [packInto, hnone]
  rfl

theorem packInto_append (xs old zs : List UInt8) {off : Nat} (hoff : off = xs.length)
    (h : ∀ v ∈ values, v < 2 ^ 32) (hold : old.length = 4 * values.length) :
    packInto (xs ++ (old ++ zs)) off (values.map Nat.cast) =
      some (xs ++ (packed values ++ zs)) := by
  have hlen : (packed values).length = 4 * values.length := length_packed values
  have hfit : off + 4 * (values.map (Nat.cast : Nat → Int)).length ≤
      (xs ++ (old ++ zs)).length := by
    rw [List.length_map, List.length_append, List.length_append]
    omega
  have hflatten : (values.map (toLe 4)).flatten = packed values := rfl
  rw [packInto, mapM_packWord h]
  show (if _ then _ else _) = _
  rw [if_pos hfit, hflatten, List.length_map,
    setSlice_append xs old (packed values) zs hoff (by rw [hlen]) (by rw [hlen, hold])]

theorem unpack_packed (h : ∀ v ∈ values, v < 2 ^ 32) :
    unpack values.length (packed values) = some values := by
  rw [unpack, if_pos (length_packed values), Option.some.injEq]
  apply List.ext_getElem?
  intro i
  rcases Nat.lt_or_ge i values.length with hi | hi
  · have hvalue : values[i]? = some values[i] := List.getElem?_eq_getElem hi
    have hword : ofLe (toLe 4 values[i]) = values[i] := ofLe_toLe (h _ (List.getElem_mem hi))
    rw [List.getElem?_map, List.getElem?_range hi, hvalue, Option.map_some, packed,
      slice_flatMap (fun v _ => length_toLe 4 v) hvalue, hword]
  · rw [List.getElem?_eq_none hi, List.getElem?_eq_none (by simpa using hi)]

def Block.words (b : Block) : List Nat :=
  [b.m0, b.m1, b.flags, b.addr, b.size, b.no, b.tot, b.family]

/-- The bytes of a block. -/
def Block.encode (b : Block) : List UInt8 :=
  packed b.words ++ (b.payload ++ (List.replicate 220 0 ++ packed [b.me]))

structure Block.Encodable (b : Block) : Prop where
  words : ∀ v ∈ b.words, v < 2 ^ 32
  me : b.me < 2 ^ 32
  payload : b.payload.length = payloadBytes

theorem Block.length_header (b : Block) : (packed b.words).length = 32 := length_packed b.words

theorem Block.Encodable.length_encode {b : Block} (h : b.Encodable) : b.encode.length = 512 := by
  rw [encode, List.length_append, List.length_append, List.length_append, b.length_header,
    h.payload, List.length_replicate, length_packed]
  rfl

theorem Block.Encodable.decode_encode {b : Block} (h : b.Encodable) :
    decodeBlock b.encode = some b := by
  have hheader : slice b.encode 0 32 = packed b.words :=
    slice_append [] _ _ rfl (by rw [b.length_header])
  have hpayload : slice b.encode 32 (32 + payloadBytes) = b.payload :=
    slice_append _ _ _ b.length_header.symm (by rw [h.payload])
  have hlast : slice b.encode 508 512 = packed [b.me] := by
    have hsplit : b.encode =
        (packed b.words ++ (b.payload ++ List.replicate 220 0)) ++ (packed [b.me] ++ []) := by
      rw [encode, List.append_nil, List.append_assoc, List.append_assoc]
    rw [hsplit]
    refine slice_append _ _ _ ?_ (by rw [length_packed]; rfl)
    rw [List.length_append, List.length_append, b.length_header, h.payload,
      List.length_replicate]
    rfl
  have hwords : unpack 8 (packed b.words) = some b.words := unpack_packed h.words
  have hme : unpack 1 (packed [b.me]) = some [b.me] :=
    unpack_packed (List.forall_mem_singleton.mpr h.me)
  rw [decodeBlock, hheader, hlast, hwords, hme, hpayload]
  rfl

/-- Header, payload and last word written one after the other over zeros. -/
theorem Block.Encodable.packInto_encode {b : Block} (h : b.Encodable) :
    (packInto (List.replicate 512 0) 0 (b.words.map Nat.cast)).bind (fun block =>
      packInto (setSlice block 32 (32 + payloadBytes) b.payload) 508 [(b.me : Int)]) =
      some b.encode := by
  let tail : List UInt8 := List.replicate 220 0 ++ List.replicate 4 0
  have hzeros : List.replicate 512 (0 : UInt8) =
      [] ++ (List.replicate 32 0 ++ (List.replicate 256 0 ++ tail)) := by
    simp only [tail, List.nil_append, List.replicate_append_replicate]
  have hheader : packInto (List.replicate 512 0) 0 (b.words.map Nat.cast) =
      some (packed b.words ++ (List.replicate 256 0 ++ tail)) := by
    rw [hzeros]
    exact packInto_append _ _ _ rfl h.words List.length_replicate
  have hpayload : setSlice (packed b.words ++ (List.replicate 256 0 ++ tail)) 32
      (32 + payloadBytes) b.payload = packed b.words ++ (b.payload ++ tail) :=
    setSlice_append _ _ _ _ b.length_header.symm (by rw [h.payload])
      (by rw [List.length_replicate, h.payload]; rfl)
  have hlast : packInto (packed b.words ++ (b.payload ++ tail)) 508 [(b.me : Int)] =
      some b.encode := by
    have hlen : 508 = (packed b.words ++ (b.payload ++ List.replicate 220 0)).length := by
      rw [List.length_append, List.length_append, b.length_header, h.payload,
        List.length_replicate]
      rfl
    have hpack := packInto_append _ (List.replicate 4 0) [] hlen
      (List.forall_mem_singleton.mpr h.me) List.length_replicate
    simp only [List.append_assoc, List.append_nil] at hpack
    exact hpack
  rw [hheader, Option.bind_some, hpayload, hlast]

/-- The block that `build` makes of a payload. -/
def blockAt (base : Int) (total n : Nat) (payload : List UInt8) : Block where
  m0 := magic0
  m1 := magic1
  flags := flagFamily
  addr := (base + n * payloadBytes).toNat
  size := payloadBytes
  no := n
  tot := total
  family := rp2040Family
  payload := payload
  me := magicE

theorem encodable_blockAt (haddr : base + n * payloadBytes < 2 ^ 32) (hn : n < total)
    (htotal : total < 2 ^ 32) (hpayload : payload.length = payloadBytes) :
    (blockAt base total n payload).Encodable := by
  have hme : magicE < 2 ^ 32 := by decide
  refine ⟨?_, hme, hpayload⟩
  have hword : (base + n * payloadBytes).toNat < 2 ^ 32 := by omega
  have hno : n < 2 ^ 32 := by omega
  simp only [Block.words, blockAt, List.forall_mem_cons]
  exact ⟨by decide, by decide, by decide, hword, by decide, hno, htotal, by decide,
    fun v hv => (List.not_mem_nil hv).elim⟩

theorem buildBlock_eq (hbase : 0 ≤ base + n * payloadBytes)
    (h : (blockAt base total n
      (slice image (n * payloadBytes) ((n + 1) * payloadBytes))).Encodable) :
    buildBlock base image total n =
      some (blockAt base total n
        (slice image (n * payloadBytes) ((n + 1) * payloadBytes))).encode := by
  have hvalues : ([magic0, magic1, flagFamily, base + n * payloadBytes, payloadBytes, n, total,
      rp2040Family] : List Int) = (blockAt base total n
        (slice image (n * payloadBytes) ((n + 1) * payloadBytes))).words.map Nat.cast := by
    have haddr : (((base + n * payloadBytes).toNat : Nat) : Int) = base + n * payloadBytes :=
      Int.toNat_of_nonneg hbase
    simp only [Block.words, blockAt, List.map_cons, List.map_nil, haddr]
  rw [buildBlock, hvalues]
  exact h.packInto_encode

end

/-! ## The whole file -/

section

variable {base : Int} {pairs pairs' : List (Placement UInt8)} {stop : Nat}

theorem foldl_max_le_iff (pairs : List (Placement UInt8)) (e n : Nat) :
    pairs.foldl (fun stop p => max stop (p.off + p.data.length)) e ≤ n ↔
      e ≤ n ∧ ∀ p ∈ pairs, p.span.stop ≤ n := by
  induction pairs generalizing e with
  | nil => exact ⟨fun h => ⟨h, fun p hp => (List.not_mem_nil hp).elim⟩, fun h => h.1⟩
  | cons p pairs ih =>
    rw [List.foldl_cons, ih, Nat.max_le, List.forall_mem_cons, and_assoc]
    rfl

theorem imageEnd_le_iff {n : Nat} : imageEnd pairs ≤ n ↔ ∀ p ∈ pairs, p.span.stop ≤ n := by
  rw [imageEnd, foldl_max_le_iff]
  exact and_iff_right (Nat.zero_le n)

theorem imageEnd_perm (h : pairs.Perm pairs') : imageEnd pairs' = imageEnd pairs := by
  refine eq_of_forall_ge_iff fun n => ?_
  rw [imageEnd_le_iff, imageEnd_le_iff]
  exact ⟨fun hle p hp => hle p (h.mem_iff.mp hp), fun hle p hp => hle p (h.mem_iff.mpr hp)⟩

theorem imageEnd_eq (hstop : IsGreatest {e | ∃ p ∈ pairs, p.span.stop = e} stop) :
    imageEnd pairs = stop := by
  refine eq_of_forall_ge_iff fun n => ?_
  rw [imageEnd_le_iff]
  obtain ⟨⟨last, hlast, hend⟩, hupper⟩ := hstop
  constructor
  · intro h
    rw [← hend]
    exact h last hlast
  · intro h p hp
    exact le_trans (hupper ⟨p, hp, rfl⟩) h

/-- The number of blocks. -/
def blocks (pairs : List (Placement UInt8)) : Nat :=
  (imageEnd pairs + payloadBytes - 1) / payloadBytes

/-- The image, in whole blocks. -/
def imageOf (pairs : List (Placement UInt8)) : List UInt8 :=
  fill (List.replicate (blocks pairs * payloadBytes) 0) pairs

theorem blocks_bounds (pairs : List (Placement UInt8)) :
    imageEnd pairs ≤ 256 * blocks pairs ∧ 256 * blocks pairs < imageEnd pairs + 256 := by
  unfold blocks payloadBytes
  omega

theorem fit_imageOf (pairs : List (Placement UInt8)) :
    Fit (List.replicate (blocks pairs * payloadBytes) (0 : UInt8)) pairs := by
  intro p hp
  have hround := (blocks_bounds pairs).1
  have hle : p.span.stop ≤ imageEnd pairs := imageEnd_le_iff.mp le_rfl p hp
  rw [List.length_replicate, payloadBytes, Nat.mul_comm]
  exact le_trans hle hround

theorem length_imageOf (pairs : List (Placement UInt8)) :
    (imageOf pairs).length = blocks pairs * payloadBytes := by
  rw [imageOf, length_fill (fit_imageOf pairs), List.length_replicate]

def blockOf (base : Int) (pairs : List (Placement UInt8)) (n : Nat) : Block :=
  blockAt base (blocks pairs) n
    (slice (imageOf pairs) (n * payloadBytes) ((n + 1) * payloadBytes))

/-- The file that `build` returns. -/
def uf2Of (base : Int) (pairs : List (Placement UInt8)) : Uf2 where
  bytes := (List.range (blocks pairs)).flatMap fun n => (blockOf base pairs n).encode
  total := blocks pairs
  stop := blocks pairs * payloadBytes

/-- Every block has an address and a number that a word holds. -/
structure Addressable (base : Int) (pairs : List (Placement UInt8)) : Prop where
  addr : ∀ n < blocks pairs, 0 ≤ base + n * payloadBytes ∧ base + n * payloadBytes < 2 ^ 32
  total : blocks pairs < 2 ^ 32

/-- A base that is no address leaves an empty image only. -/
theorem addressable_of_le (hbase : 0 ≤ base ∨ imageEnd pairs = 0)
    (hroom : base + imageEnd pairs ≤ 2 ^ 32) : Addressable base pairs := by
  have hbounds := blocks_bounds pairs
  constructor
  · intro n hn
    unfold payloadBytes
    omega
  · omega

theorem Addressable.encodable (h : Addressable base pairs) {n : Nat} (hn : n < blocks pairs) :
    (blockOf base pairs n).Encodable := by
  refine encodable_blockAt (h.addr n hn).2 hn h.total ?_
  have hle : (n + 1) * payloadBytes ≤ (imageOf pairs).length := by
    rw [length_imageOf]
    exact Nat.mul_le_mul_right payloadBytes hn
  rw [length_slice hle, Nat.succ_mul, Nat.add_sub_cancel_left]

theorem build_eq (h : Addressable base pairs) :
    build base pairs = some (uf2Of base pairs) := by
  have htotal : blocks pairs * payloadBytes / payloadBytes = blocks pairs :=
    Nat.mul_div_cancel _ (by decide)
  have hblock : ∀ n ∈ List.range (blocks pairs),
      buildBlock base (imageOf pairs) (blocks pairs) n = some (blockOf base pairs n).encode :=
    fun n hn => buildBlock_eq (h.addr n (List.mem_range.mp hn)).1
      (h.encodable (List.mem_range.mp hn))
  have hout := foldlM_append hblock []
  rw [build, ← blocks, ← imageOf, htotal, hout]
  rfl

/-- The order of the placements changes nothing. -/
theorem build_perm (hperm : pairs.Perm pairs') (hapart : Apart pairs) :
    build base pairs' = build base pairs := by
  have himage := fill_perm hperm (fit_imageOf pairs) hapart
  rw [build, build, imageEnd_perm hperm, ← blocks, himage]

/-! ## Reading the file back -/

theorem length_uf2Of (h : Addressable base pairs) :
    (uf2Of base pairs).bytes.length = 512 * blocks pairs := by
  have hlen : ∀ n ∈ List.range (blocks pairs), (blockOf base pairs n).encode.length = 512 :=
    fun n hn => (h.encodable (List.mem_range.mp hn)).length_encode
  rw [uf2Of, length_flatMap_blocks hlen, List.length_range]

theorem block_uf2Of (h : Addressable base pairs) {n : Nat} (hn : n < blocks pairs) :
    (uf2Of base pairs).block n = some (blockOf base pairs n) := by
  have hlen : ∀ n ∈ List.range (blocks pairs), (blockOf base pairs n).encode.length = 512 :=
    fun n hn => (h.encodable (List.mem_range.mp hn)).length_encode
  rw [Uf2.block, uf2Of, slice_flatMap hlen (List.getElem?_range hn)]
  exact (h.encodable hn).decode_encode

theorem image_uf2Of (h : Addressable base pairs) :
    (uf2Of base pairs).image = imageOf pairs := by
  have hpayload : ∀ n ∈ List.range (blocks pairs),
      (((uf2Of base pairs).block n).map Block.payload).getD [] =
        slice (imageOf pairs) (payloadBytes * n) (payloadBytes * (n + 1)) := by
    intro n hn
    rw [block_uf2Of h (List.mem_range.mp hn), Nat.mul_comm, Nat.mul_comm payloadBytes]
    rfl
  have hall : slice (imageOf pairs) 0 (payloadBytes * blocks pairs) = imageOf pairs := by
    rw [slice, List.drop_zero, Nat.mul_comm, ← length_imageOf, List.take_length]
  calc (uf2Of base pairs).image
      = (List.range (blocks pairs)).flatMap fun n =>
          slice (imageOf pairs) (payloadBytes * n) (payloadBytes * (n + 1)) :=
        List.flatMap_congr hpayload
    _ = slice (imageOf pairs) 0 (payloadBytes * blocks pairs) := flatMap_slice _ _ _
    _ = imageOf pairs := hall

theorem lossless_uf2Of (h : Addressable base pairs) (hapart : Apart pairs) :
    Lossless base pairs (imageEnd pairs) (uf2Of base pairs) where
  length := length_uf2Of h
  total := blocks_bounds pairs
  blocks n hn := by
    have haddr : (((base + n * payloadBytes).toNat : Nat) : Int) = base + 256 * n := by
      rw [Int.toNat_of_nonneg (h.addr n hn).1, payloadBytes, Int.mul_comm]
      rfl
    exact ⟨_, block_uf2Of h hn, rfl, rfl, rfl, rfl, rfl, rfl, haddr, rfl, rfl⟩
  image := by
    rw [image_uf2Of h, length_imageOf, payloadBytes, Nat.mul_comm]
    rfl
  placed p hp := by
    rw [image_uf2Of h]
    exact slice_fill (fit_imageOf pairs) hapart hp
  gaps i hi hnone := by
    rw [image_uf2Of h] at hi ⊢
    rw [length_imageOf] at hi
    rw [imageOf, getElem?_fill_of_not_mem (fit_imageOf pairs) hnone,
      List.getElem?_replicate_of_lt hi]

/-- What is placed is in the file, at its address, and nothing else is. -/
theorem build_lossless (hstop : IsGreatest {e | ∃ p ∈ pairs, p.span.stop = e} stop)
    (hapart : Apart pairs) (hbase : 0 ≤ base ∨ stop = 0) (hroom : base + stop ≤ 2 ^ 32) :
    ∃ u, build base pairs = some u ∧ Lossless base pairs stop u ∧
      ∀ pairs', pairs.Perm pairs' → build base pairs' = some u := by
  have hend := imageEnd_eq hstop
  subst hend
  have haddr := addressable_of_le hbase hroom
  refine ⟨uf2Of base pairs, build_eq haddr, lossless_uf2Of haddr hapart, ?_⟩
  intro pairs' hperm
  rw [build_perm hperm hapart]
  exact build_eq haddr

/-- `struct.pack_into` raises on a negative address. -/
theorem build_negative (hbase : base < 0) (hstop : 0 < imageEnd pairs) :
    build base pairs = none := by
  have htotal : blocks pairs * payloadBytes / payloadBytes = blocks pairs :=
    Nat.mul_div_cancel _ (by decide)
  have hpos : 0 < blocks pairs := by
    have hbounds := (blocks_bounds pairs).1
    omega
  obtain ⟨k, hk⟩ := Nat.exists_eq_succ_of_ne_zero hpos.ne'
  have haddr : packWord (base + (0 : Nat) * payloadBytes) = none := if_neg (by omega)
  have hblock : buildBlock base (imageOf pairs) (blocks pairs) 0 = none := by
    rw [buildBlock, packInto_eq_none (by simp) haddr]
    rfl
  have hrange : List.range (blocks pairs) = 0 :: (List.range k).map Nat.succ := by
    rw [hk, List.range_succ_eq_map]
  rw [build, ← blocks, ← imageOf, htotal, hrange, List.foldlM_cons, hblock]
  rfl

/-- A bootloader and an image behind a gap. -/
theorem build_lossless_two :
    ∃ u, build 0x10000000 [⟨0, [1, 2]⟩, ⟨576, [3]⟩] = some u ∧
      Lossless 0x10000000 [⟨0, [1, 2]⟩, ⟨576, [3]⟩] 577 u ∧
      ∀ pairs', [⟨0, [1, 2]⟩, ⟨576, [3]⟩].Perm pairs' → build 0x10000000 pairs' = some u := by
  refine build_lossless ⟨⟨⟨576, [3]⟩, by simp, rfl⟩, ?_⟩ ?_ (.inl (by decide)) (by decide)
  · rintro e ⟨p, hp, rfl⟩
    rcases List.mem_pair.mp hp with rfl | rfl <;> decide
  · refine List.pairwise_pair.mpr (Span.Before.disjoint ?_)
    show 2 ≤ 576
    decide

/-- With base -1 one byte at offset 0 is not built. -/
theorem build_below_zero : Apart [(⟨0, [1]⟩ : Placement UInt8)] ∧
    (-1 : Int) + imageEnd [⟨0, [1]⟩] ≤ 2 ^ 32 ∧ build (-1) [⟨0, [1]⟩] = none :=
  ⟨List.pairwise_singleton _ _, by decide, build_negative (by decide) (by decide)⟩

end

end Scripts
end GarageDoor
