import Mathlib.Data.UInt
import ZvolRescue.Lib.Sparse
import ZvolRescue.Ondisk.Seal

/-!
# Writing block pointers

`Builder` puts a pointer together word by word, as the fixtures of the reader do.  What is
written is read back, in both byte orders, except for the payload of an embedded pointer
(`roundTrips_iff`) and the salt of a ciphertext block (`cryptParams_iff`): the first is taken
from the bytes as they are, the second in the order that the pointer itself names.
-/

namespace ZvolRescue
namespace Ondisk

open Lib

/-! ## Fields of a word -/

/-- The word with `len` bits from bit `low` on replaced. -/
def setBits (word : UInt64) (low len : Nat) (v : UInt64) : UInt64 :=
  let mask := ((1 <<< UInt64.ofNat len) - 1) <<< UInt64.ofNat low
  (word &&& ~~~mask) ||| ((v <<< UInt64.ofNat low) &&& mask)

section Fields

variable {w v : UInt64} {low len : Nat}

theorem bits_lt (w : UInt64) (low len : Nat) : bits w low len < 2 ^ len :=
  Nat.mod_lt _ (Nat.two_pow_pos len)

theorem testBit_bits (w : UInt64) (low len i : Nat) :
    (bits w low len).testBit i = (decide (i < len) && w.toNat.testBit (low + i)) := by
  rw [bits, Nat.testBit_mod_two_pow, Nat.testBit_div_two_pow, Nat.add_comm]

theorem toNat_shiftLeft_of_lt {s : Nat} (hs : s < 64) (x : UInt64) :
    (x <<< UInt64.ofNat s).toNat = x.toNat <<< s % 2 ^ 64 := by
  rw [UInt64.toNat_shiftLeft, UInt64.toNat_ofNat', Nat.mod_eq_of_lt (by omega : s < 2 ^ 64),
    Nat.mod_eq_of_lt hs]

theorem testBit_mask (hlow : low < 64) (hlen : len < 64) (i : Nat) :
    (((1 <<< UInt64.ofNat len) - 1) <<< UInt64.ofNat low : UInt64).toNat.testBit i =
      decide (i < 64 ∧ low ≤ i ∧ i < low + len) := by
  have hone : ((1 : UInt64) <<< UInt64.ofNat len).toNat = 2 ^ len := by
    rw [toNat_shiftLeft_of_lt hlen, Nat.shiftLeft_eq]
    show 1 * 2 ^ len % 2 ^ 64 = _
    rw [Nat.one_mul, Nat.mod_eq_of_lt (Nat.pow_lt_pow_right (by decide) hlen)]
  have hle : (1 : UInt64) ≤ 1 <<< UInt64.ofNat len := by
    rw [UInt64.le_iff_toNat_le, hone]
    exact Nat.one_le_two_pow
  have hones : ((1 <<< UInt64.ofNat len) - 1 : UInt64).toNat = 2 ^ len - 1 := by
    rw [UInt64.toNat_sub_of_le _ _ hle, hone]
    rfl
  rw [toNat_shiftLeft_of_lt hlow, hones, Nat.testBit_mod_two_pow, Nat.testBit_shiftLeft,
    Nat.testBit_two_pow_sub_one]
  rw [← Bool.decide_and, ← Bool.decide_and, decide_eq_decide]
  omega

/-- The field is the new value, and the other bits are the old ones. -/
theorem testBit_setBits (hlow : low < 64) (hlen : len < 64) {i : Nat} (hi : i < 64) :
    (setBits w low len v).toNat.testBit i =
      if low ≤ i ∧ i < low + len then v.toNat.testBit (i - low) else w.toNat.testBit i := by
  have hmask := testBit_mask hlow hlen i
  rw [setBits]
  generalize (((1 <<< UInt64.ofNat len) - 1) <<< UInt64.ofNat low : UInt64) = mask at hmask ⊢
  have hnot : (~~~mask).toNat = 2 ^ 64 - (mask.toNat + 1) := by
    rw [UInt64.toNat_not, UInt64.size]
    omega
  rw [UInt64.toNat_or, UInt64.toNat_and, UInt64.toNat_and, hnot, Nat.testBit_or, Nat.testBit_and,
    Nat.testBit_and, Nat.testBit_two_pow_sub_succ mask.toNat_lt, hmask,
    toNat_shiftLeft_of_lt hlow, Nat.testBit_mod_two_pow, Nat.testBit_shiftLeft]
  by_cases hin : low ≤ i ∧ i < low + len
  · rw [if_pos hin]
    simp [hi, hin]
  · rw [if_neg hin]
    simp [hi, hin]

theorem bits_setBits_same (hlen : len < 64) (h : low + len ≤ 64) :
    bits (setBits w low len v) low len = v.toNat % 2 ^ len := by
  apply Nat.eq_of_testBit_eq
  intro i
  rw [testBit_bits, Nat.testBit_mod_two_pow]
  by_cases hi : i < len
  · rw [testBit_setBits (by omega) hlen (by omega), if_pos (by omega), Nat.add_sub_cancel_left]
  · simp [hi]

theorem bits_setBits_apart (hlow : low < 64) (hlen : len < 64) {low' len' : Nat}
    (h : low' + len' ≤ 64) (hapart : low' + len' ≤ low ∨ low + len ≤ low') :
    bits (setBits w low len v) low' len' = bits w low' len' := by
  apply Nat.eq_of_testBit_eq
  intro i
  rw [testBit_bits, testBit_bits]
  by_cases hi : i < len'
  · rw [testBit_setBits hlow hlen (by omega), if_neg (by omega)]
  · simp [hi]

end Fields

/-! ## The encoder -/

/-- The sixteen words of a pointer under construction. -/
structure Builder where
  word : Nat → UInt64

namespace Builder

def put (b : Builder) (i : Nat) (w : UInt64) : Builder :=
  { word := fun j => if j = i then w else b.word j }

def set (b : Builder) (i low len : Nat) (v : UInt64) : Builder :=
  b.put i (setBits (b.word i) low len v)

/-- An empty pointer, flagged as written by a little-endian host. -/
def new : Builder := ({ word := fun _ => 0 } : Builder).set 6 63 1 1

def flag (b : Bool) : UInt64 := if b then 1 else 0

def dva (b : Builder) (i : Nat) (d : Dva) : Builder :=
  (((b.set (i * 2) 0 24 (UInt64.ofNat d.asize >>> 9)).set (i * 2) 32 32
    (UInt64.ofNat d.vdev)).set (i * 2 + 1) 0 63 (UInt64.ofNat d.offset >>> 9)).set (i * 2 + 1) 63 1
      (flag d.gang)

/-- Logical and physical size in bytes. -/
def sizes (b : Builder) (lsize psize : Nat) : Builder :=
  (b.set 6 0 16 ((UInt64.ofNat lsize >>> 9) - 1)).set 6 16 16 ((UInt64.ofNat psize >>> 9) - 1)

def props (b : Builder) (comp cksum otype level : Nat) : Builder :=
  (((b.set 6 32 7 (UInt64.ofNat comp)).set 6 40 8 (UInt64.ofNat cksum)).set 6 48 8
    (UInt64.ofNat otype)).set 6 56 5 (UInt64.ofNat level)

def flags (b : Builder) (encrypted dedup : Bool) : Builder :=
  (b.set 6 61 1 (flag encrypted)).set 6 62 1 (flag dedup)

def births (b : Builder) (phys logical fill : Nat) : Builder :=
  ((b.put 9 (UInt64.ofNat phys)).put 10 (UInt64.ofNat logical)).put 11 (UInt64.ofNat fill)

def cksum (b : Builder) (c : Words) : Builder :=
  (((b.put 12 c.w0).put 13 c.w1).put 14 c.w2).put 15 c.w3

/-- The words of an embedded pointer that carry its payload. -/
def payloadWords : List Nat := [0, 1, 2, 3, 4, 5, 7, 8, 9, 11, 12, 13, 14, 15]

/-- The `n`-th group of eight bytes of a payload that is padded with zeros. -/
def payloadGroup (payload : List UInt8) (n : Nat) : List UInt8 :=
  ((setLen payload embeddedPayloadSize).drop (n * 8)).take 8

/-- Turn into an embedded pointer with this payload. -/
def embedded (b : Builder) (payload : List UInt8) (lsize comp otype : Nat) : Builder :=
  let b := (((((((b.put 6 0).set 6 63 1 1).set 6 39 1 1).set 6 0 25 (UInt64.ofNat lsize - 1)).set
    6 25 7 (UInt64.ofNat payload.length - 1)).set 6 32 7 (UInt64.ofNat comp)).set 6 48 8
      (UInt64.ofNat otype))
  payloadWords.zipIdx.foldl (fun b w => b.put w.1 (Endian.leValue (payloadGroup payload w.2))) b

/-- The 128 bytes in a byte order. -/
def bytes (b : Builder) (e : Endian) : List UInt8 :=
  (List.range 16).flatMap (fun i => e.bytes (b.word i))

/-! ## Reading words back -/

section Words

variable (b : Builder) (e : Endian)

theorem bytes_split {i : Nat} (hi : i < 16) :
    b.bytes e = (List.range i).flatMap (fun j => e.bytes (b.word j)) ++ e.bytes (b.word i) ++
      ((List.range 16).drop (i + 1)).flatMap (fun j => e.bytes (b.word j)) := by
  have hrange : List.range 16 = List.range i ++ i :: (List.range 16).drop (i + 1) := by
    have hlen : i < (List.range 16).length := by rwa [List.length_range]
    have htake : (List.range 16).take i = List.range i := by
      rw [List.take_range, Nat.min_eq_left hi.le]
    have hdrop := List.drop_eq_getElem_cons hlen
    rw [List.getElem_range] at hdrop
    rw [← hdrop, ← htake, List.take_append_drop]
  rw [bytes]
  conv_lhs => rw [hrange]
  rw [List.flatMap_append, List.flatMap_cons, List.append_assoc]

theorem length_words (l : List Nat) :
    (l.flatMap (fun j => e.bytes (b.word j))).length = l.length * 8 := by
  induction l with
  | nil => rfl
  | cons j l ih =>
    rw [List.flatMap_cons, List.length_append, Endian.bytes_length, ih, List.length_cons]
    ring

theorem bytes_length : (b.bytes e).length = bpSize := by
  rw [bytes, length_words, List.length_range]
  rfl

theorem u64At_bytes_word {i : Nat} (hi : i < 16) :
    e.u64At (b.bytes e) (i * 8) = some (b.word i) := by
  rw [b.bytes_split e hi]
  apply u64At_bytes
  rw [length_words, List.length_range]

theorem drop_bytes_word {i : Nat} (hi : i < 16) :
    ((b.bytes e).drop (i * 8)).take 8 = e.bytes (b.word i) := by
  have hlen : ((List.range i).flatMap (fun j => e.bytes (b.word j))).length = i * 8 := by
    rw [length_words, List.length_range]
  rw [b.bytes_split e hi, List.append_assoc, ← hlen, List.drop_left, List.take_left']
  exact Endian.bytes_length _ _

end Words

end Builder

/-! ## All the fields of a pointer -/

/-- A pointer with the fields that only reports show. -/
structure Decoded extends BlkPtr where
  compressionCode : Nat
  checksumCode : Nat
  dedup : Bool
  embeddedType : Nat
  /-- Number of blocks below, or 1. -/
  fill : Nat
  deriving DecidableEq, Repr

namespace BlkPtr

/-- `parse` with every field. -/
def parseFull (buf : List UInt8) (endian : Endian) : Except ParseError Decoded :=
  (parse buf endian).map (fun bp =>
    let w := fun i => (endian.u64At buf (i * 8)).getD 0
    let prop := w 6
    let hole := ¬ bp.embedded ∧ w 0 = 0 ∧ w 1 = 0
    let ciphertext :=
      bp.encrypted ∧ ¬ hole ∧ ¬ bp.embedded ∧ bp.level = 0 ∧ otIsEncrypted bp.objectType
    { toBlkPtr := bp
      compressionCode := bits prop 32 7
      checksumCode := if bp.embedded then 0 else bits prop 40 8
      dedup := bits prop 62 1 ≠ 0
      embeddedType := if bp.embedded then bits prop 40 8 else 0
      fill :=
        if bp.embedded then 1
        else if ciphertext then bits (w 11) 0 32
        else (w 11).toNat })

theorem parse_of_parseFull {buf : List UInt8} {e : Endian} {p : Decoded}
    (h : parseFull buf e = .ok p) : parse buf e = .ok p.toBlkPtr := by
  unfold parseFull at h
  cases hparse : parse buf e with
  | error err =>
    rw [hparse] at h
    cases h
  | ok bp =>
    rw [hparse] at h
    cases h
    rfl

end BlkPtr

/-! ## What the encoder is given -/

/-- The fields of a pointer to blocks. -/
structure Plain where
  dva0 : Dva
  dva1 : Dva
  /-- The salt and the first words of the IV, for a ciphertext block. -/
  dva2 : Dva
  lsize : Nat
  psize : Nat
  comp : Nat
  cksumCode : Nat
  otype : Nat
  level : Nat
  encrypted : Bool
  dedup : Bool
  phys : Nat
  logical : Nat
  fill : Nat
  cksum : Words

/-- Numbers that the two words of a DVA hold. -/
structure Dva.Fits (d : Dva) : Prop where
  vdev : d.vdev < 2 ^ 32
  offset : d.offset < 2 ^ 64
  sector : 2 ^ minBlockShift ∣ d.offset
  asize : d.asize < 2 ^ 33
  units : 2 ^ minBlockShift ∣ d.asize

/-! ### Numbers and their fields -/

theorem shr_units {n : Nat} (hn : n < 2 ^ 64) (h : 2 ^ minBlockShift ∣ n) :
    (UInt64.ofNat n >>> 9).toNat * 2 ^ minBlockShift = n := by
  have hshift : (UInt64.ofNat n >>> 9).toNat = n / 2 ^ minBlockShift := by
    rw [UInt64.toNat_shiftRight, UInt64.toNat_ofNat', Nat.mod_eq_of_lt hn]
    exact Nat.shiftRight_eq_div_pow n 9
  rw [hshift, Nat.div_mul_cancel h]

theorem toNat_ofNat_mod {n k : Nat} (hn : n < 2 ^ k) (hk : k < 64) :
    (UInt64.ofNat n).toNat % 2 ^ k = n := by
  have hlt : n < 2 ^ 64 := Nat.lt_trans hn (Nat.pow_lt_pow_right (by decide) hk)
  rw [UInt64.toNat_ofNat', Nat.mod_eq_of_lt hlt, Nat.mod_eq_of_lt hn]

theorem flag_toNat (b : Bool) : (Builder.flag b).toNat % 2 ^ 1 = if b then 1 else 0 := by
  cases b <;> rfl

theorem flag_ne_zero (b : Bool) : (if b = true then 1 else 0) ≠ 0 ↔ b = true := by
  cases b <;> decide

/-- A DVA is read back from its two words, whatever they held. -/
theorem fromWords_dva (b : Builder) (i : Nat) {d : Dva} (h : d.Fits) :
    Dva.fromWords ((b.dva i d).word (i * 2)) ((b.dva i d).word (i * 2 + 1)) = d := by
  have hfirst : (b.dva i d).word (i * 2) =
      setBits (setBits (b.word (i * 2)) 0 24 (UInt64.ofNat d.asize >>> 9)) 32 32
        (UInt64.ofNat d.vdev) := by
    simp [Builder.dva, Builder.set, Builder.put]
  have hsecond : (b.dva i d).word (i * 2 + 1) =
      setBits (setBits (b.word (i * 2 + 1)) 0 63 (UInt64.ofNat d.offset >>> 9)) 63 1
        (Builder.flag d.gang) := by
    simp [Builder.dva, Builder.set, Builder.put]
  have hasize := shr_units (Nat.lt_trans h.asize (by decide)) h.units
  have hoffset := shr_units h.offset h.sector
  have hunit : 2 ^ minBlockShift = 512 := rfl
  rw [hunit] at hasize hoffset
  rw [hfirst, hsecond, Dva.fromWords]
  simp (disch := decide) only [bits_setBits_same, bits_setBits_apart, flag_toNat]
  have hvdev := toNat_ofNat_mod h.vdev (by decide)
  have hoff : (UInt64.ofNat d.offset >>> 9).toNat % 2 ^ 63 * 512 % 2 ^ 64 = d.offset := by
    have hlt := h.offset
    generalize (UInt64.ofNat d.offset >>> 9).toNat = n at hoffset ⊢
    omega
  have hsize : (UInt64.ofNat d.asize >>> 9).toNat % 2 ^ 24 * 512 = d.asize := by
    have hlt := h.asize
    have hfits : (UInt64.ofNat d.asize >>> 9).toNat < 2 ^ 24 := by omega
    rw [Nat.mod_eq_of_lt hfits, hasize]
  simp only [flag_ne_zero, Bool.decide_eq_true]
  rw [hunit, hvdev, hoff, hsize]

/-- A size is read back from its field, which is one less in sectors. -/
theorem sectors_back {n size : Nat} (hpos : 0 < n) (hle : n ≤ 2 ^ 16)
    (hsize : size = n * 2 ^ minBlockShift) :
    (((UInt64.ofNat size >>> 9) - 1).toNat % 2 ^ 16 + 1) * 2 ^ minBlockShift = size := by
  have hunit : 2 ^ minBlockShift = 512 := rfl
  have hunits : 2 ^ minBlockShift ∣ size := hsize ▸ Nat.dvd_mul_left _ _
  rw [hunit] at hsize
  have hshift := shr_units (by omega) hunits
  rw [hunit] at hshift ⊢
  generalize UInt64.ofNat size >>> 9 = w at hshift ⊢
  have hle' : (1 : UInt64) ≤ w := by
    rw [UInt64.le_iff_toNat_le, UInt64.toNat_one]
    omega
  have hsub : (w - 1).toNat = n - 1 := by
    rw [UInt64.toNat_sub_of_le _ _ hle', UInt64.toNat_one]
    omega
  rw [hsub, Nat.mod_eq_of_lt (by omega), Nat.sub_add_cancel hpos, hsize]

/-- A number that is stored as one less is read back, unless it was zero. -/
theorem biased_back {n k : Nat} (hpos : 0 < n) (hle : n ≤ 2 ^ k) (hk : k < 64) :
    (UInt64.ofNat n - 1).toNat % 2 ^ k + 1 = n := by
  have hlt : n < 2 ^ 64 := Nat.lt_of_le_of_lt hle (Nat.pow_lt_pow_right (by decide) hk)
  have hn : (UInt64.ofNat n).toNat = n := by rw [UInt64.toNat_ofNat', Nat.mod_eq_of_lt hlt]
  have hone : (1 : UInt64) ≤ UInt64.ofNat n := by
    rw [UInt64.le_iff_toNat_le, hn, UInt64.toNat_one]
    exact hpos
  rw [UInt64.toNat_sub_of_le _ _ hone, hn, UInt64.toNat_one, Nat.mod_eq_of_lt (by omega),
    Nat.sub_add_cancel hpos]

theorem Dva.eq_empty {d : Dva} (h : d.isEmpty = true) : d = Dva.empty := by
  cases d
  simp only [Dva.isEmpty, Bool.and_eq_true, decide_eq_true_eq, Bool.not_eq_true'] at h
  obtain ⟨⟨⟨rfl, rfl⟩, rfl⟩, rfl⟩ := h
  rfl

namespace Plain

/-- Numbers that their fields hold. -/
structure Fits (g : Plain) : Prop where
  dva0 : g.dva0.Fits
  dva1 : g.dva1.Fits
  dva2 : g.dva2.Fits
  lsize : ∃ n, 0 < n ∧ n ≤ 2 ^ 16 ∧ g.lsize = n * 2 ^ minBlockShift
  psize : ∃ n, 0 < n ∧ n ≤ 2 ^ 16 ∧ g.psize = n * 2 ^ minBlockShift
  comp : g.comp < 2 ^ 7
  cksumCode : g.cksumCode < 2 ^ 8
  otype : g.otype < 2 ^ 8
  level : g.level < 2 ^ 5
  phys : g.phys < 2 ^ 63
  logical : g.logical < 2 ^ 63
  fill : g.fill < 2 ^ 64

def builder (g : Plain) : Builder :=
  ((((((((Builder.new.dva 0 g.dva0).dva 1 g.dva1).dva 2 g.dva2).sizes g.lsize g.psize).props g.comp
    g.cksumCode g.otype g.level).flags g.encrypted g.dedup).births g.phys g.logical g.fill).cksum
      g.cksum)

/-- The block is ciphertext. -/
def ciphertext (g : Plain) : Bool :=
  g.encrypted && !g.dva0.isEmpty && g.level = 0 && otIsEncrypted g.otype

/-- The fields to be read back from the bytes of the pointer. -/
def fields (g : Plain) (raw : List UInt8) : Decoded :=
  { dva0 := g.dva0
    dva1 := g.dva1
    dva2 := if g.ciphertext then Dva.empty else g.dva2
    lsize := g.lsize
    psize := g.psize
    compression := Compression.fromCode g.comp
    checksum := Checksum.fromCode g.cksumCode
    objectType := g.otype
    level := g.level
    endian := .little
    encrypted := g.encrypted
    embedded := false
    physicalBirth := g.phys
    birth := g.logical
    cksum := g.cksum
    raw
    compressionCode := g.comp
    checksumCode := g.cksumCode
    dedup := g.dedup
    embeddedType := 0
    -- The upper half of the fill of a ciphertext block is the rest of the IV.
    fill := if g.ciphertext then g.fill % 2 ^ 32 else g.fill }

/-- What is read back from the word of the properties. -/
structure Props (g : Plain) (w : UInt64) : Prop where
  lsize : (bits w 0 16 + 1) * 2 ^ minBlockShift = g.lsize
  psize : (bits w 16 16 + 1) * 2 ^ minBlockShift = g.psize
  comp : bits w 32 7 = g.comp
  embedded : bits w 39 1 = 0
  cksumCode : bits w 40 8 = g.cksumCode
  otype : bits w 48 8 = g.otype
  level : bits w 56 5 = g.level
  encrypted : bits w 61 1 = if g.encrypted then 1 else 0
  dedup : bits w 62 1 = if g.dedup then 1 else 0
  little : bits w 63 1 = 1

theorem Fits.props {g : Plain} (h : g.Fits) : g.Props (g.builder.word 6) := by
  obtain ⟨nl, hnl, hnl', hlsize⟩ := h.lsize
  obtain ⟨np, hnp, hnp', hpsize⟩ := h.psize
  have hword : g.builder.word 6 =
      setBits (setBits (setBits (setBits (setBits (setBits (setBits (setBits (setBits 0 63 1 1)
        0 16 ((UInt64.ofNat g.lsize >>> 9) - 1)) 16 16 ((UInt64.ofNat g.psize >>> 9) - 1))
        32 7 (UInt64.ofNat g.comp)) 40 8 (UInt64.ofNat g.cksumCode)) 48 8 (UInt64.ofNat g.otype))
        56 5 (UInt64.ofNat g.level)) 61 1 (Builder.flag g.encrypted)) 62 1
        (Builder.flag g.dedup) := rfl
  rw [hword]
  constructor <;> simp (disch := decide) only [bits_setBits_same, bits_setBits_apart, flag_toNat]
  · exact sectors_back hnl hnl' hlsize
  · exact sectors_back hnp hnp' hpsize
  · exact toNat_ofNat_mod h.comp (by decide)
  · rfl
  · exact toNat_ofNat_mod h.cksumCode (by decide)
  · exact toNat_ofNat_mod h.otype (by decide)
  · exact toNat_ofNat_mod h.level (by decide)
  · rfl

/-- The DVA words of an empty pointer are zero only where the DVA is empty. -/
theorem words_zero_iff {g : Plain} (h : g.Fits) :
    g.builder.word 0 = 0 ∧ g.builder.word 1 = 0 ↔ g.dva0.isEmpty = true := by
  have hback : Dva.fromWords (g.builder.word 0) (g.builder.word 1) = g.dva0 :=
    fromWords_dva Builder.new 0 h.dva0
  constructor
  · rintro ⟨hzero, hone⟩
    rw [← hback, hzero, hone]
    rfl
  · intro hempty
    have hd := Dva.eq_empty hempty
    have hfirst : g.builder.word 0 = (Builder.new.dva 0 g.dva0).word 0 := rfl
    have hsecond : g.builder.word 1 = (Builder.new.dva 0 g.dva0).word 1 := rfl
    rw [hfirst, hsecond, hd]
    exact ⟨rfl, rfl⟩

/-- A pointer to blocks is read back with all its fields, in both byte orders. -/
theorem Fits.parseFull {g : Plain} (h : g.Fits) (e : Endian) :
    BlkPtr.parseFull (g.builder.bytes e) e = .ok (g.fields (g.builder.bytes e)) := by
  have hw : ∀ i, i < 16 → (e.u64At (g.builder.bytes e) (i * 8)).getD 0 = g.builder.word i := by
    intro i hi
    rw [Builder.u64At_bytes_word _ _ hi, Option.getD_some]
  have hlen : ¬ (g.builder.bytes e).length < bpSize := by
    rw [Builder.bytes_length]
    exact Nat.lt_irrefl _
  have hprops := h.props
  have hdva0 : Dva.fromWords (g.builder.word 0) (g.builder.word 1) = g.dva0 :=
    fromWords_dva _ 0 h.dva0
  have hdva1 : Dva.fromWords (g.builder.word 2) (g.builder.word 3) = g.dva1 :=
    fromWords_dva _ 1 h.dva1
  have hdva2 : Dva.fromWords (g.builder.word 4) (g.builder.word 5) = g.dva2 :=
    fromWords_dva _ 2 h.dva2
  have hphys : bits (g.builder.word 9) 0 63 = g.phys := by
    show (UInt64.ofNat g.phys).toNat / 1 % 2 ^ 63 = _
    rw [Nat.div_one, toNat_ofNat_mod h.phys (by decide)]
  have hlogical : bits (g.builder.word 10) 0 63 = g.logical := by
    show (UInt64.ofNat g.logical).toNat / 1 % 2 ^ 63 = _
    rw [Nat.div_one, toNat_ofNat_mod h.logical (by decide)]
  have hfill : (g.builder.word 11).toNat = g.fill := by
    show (UInt64.ofNat g.fill).toNat = _
    rw [UInt64.toNat_ofNat', Nat.mod_eq_of_lt h.fill]
  have hhole := words_zero_iff h
  unfold BlkPtr.parseFull BlkPtr.parse
  rw [if_neg hlen]
  simp (disch := decide) only [Except.map, hw, hprops.lsize, hprops.psize, hprops.comp,
    hprops.embedded, hprops.cksumCode, hprops.otype, hprops.level, hprops.encrypted, hprops.dedup,
    hprops.little, hdva0, hdva1, hdva2, hphys, hlogical, hfill, hhole,
    flag_ne_zero, Bool.decide_eq_true]
  have hcipher : (g.encrypted = true ∧ ¬ g.dva0.isEmpty = true ∧ g.level = 0 ∧
      otIsEncrypted g.otype = true) ↔ g.ciphertext = true := by
    simp [ciphertext, and_assoc]
  have hlow : bits (g.builder.word 11) 0 32 = g.fill % 2 ^ 32 := by
    rw [bits, hfill, Nat.pow_zero, Nat.div_one]
  have hraw : (g.builder.bytes e).take bpSize = g.builder.bytes e := by
    rw [← Builder.bytes_length g.builder e, List.take_length]
  simp only [ne_eq, not_true, not_false_iff, decide_false, Bool.false_eq_true, if_false, if_true,
    true_and, false_or, hcipher, hlow, hraw]
  rfl

end Plain

/-- The fields of a pointer that carries its block. -/
structure Embedded where
  payload : List UInt8
  lsize : Nat
  comp : Nat
  etype : Nat
  otype : Nat
  level : Nat
  encrypted : Bool
  dedup : Bool
  logical : Nat

namespace Embedded

/-- Numbers that their fields hold, and a payload that there is room for. -/
structure Fits (g : Embedded) : Prop where
  payload : g.payload.length ≤ embeddedPayloadSize
  lsize : 0 < g.lsize ∧ g.lsize ≤ 2 ^ 25
  comp : g.comp < 2 ^ 7
  etype : g.etype < 2 ^ 8
  otype : g.otype < 2 ^ 8
  level : g.level < 2 ^ 5
  logical : g.logical < 2 ^ 63

/-- The payload takes words of the births, so these come first. -/
def builder (g : Embedded) : Builder :=
  (((Builder.new.births 0 g.logical 0).embedded g.payload g.lsize g.comp g.otype).props g.comp
    g.etype g.otype g.level).flags g.encrypted g.dedup

def fields (g : Embedded) (raw : List UInt8) : Decoded :=
  { dva0 := Dva.empty
    dva1 := Dva.empty
    dva2 := Dva.empty
    lsize := g.lsize
    psize := g.payload.length
    compression := Compression.fromCode g.comp
    checksum := Checksum.fromCode 0
    objectType := g.otype
    level := g.level
    endian := .little
    encrypted := g.encrypted
    embedded := true
    physicalBirth := 0
    birth := g.logical
    cksum := { w0 := 0, w1 := 0, w2 := 0, w3 := 0 }
    raw
    compressionCode := g.comp
    checksumCode := 0
    dedup := g.dedup
    embeddedType := g.etype
    fill := 1 }

/-- What is read back from the word of the properties. -/
structure Props (g : Embedded) (w : UInt64) : Prop where
  lsize : bits w 0 25 + 1 = g.lsize
  psize : bits w 25 7 = (UInt64.ofNat g.payload.length - 1).toNat % 2 ^ 7
  comp : bits w 32 7 = g.comp
  embedded : bits w 39 1 = 1
  etype : bits w 40 8 = g.etype
  otype : bits w 48 8 = g.otype
  level : bits w 56 5 = g.level
  encrypted : bits w 61 1 = if g.encrypted then 1 else 0
  dedup : bits w 62 1 = if g.dedup then 1 else 0
  little : bits w 63 1 = 1

theorem Fits.props {g : Embedded} (h : g.Fits) : g.Props (g.builder.word 6) := by
  have hword : g.builder.word 6 =
      setBits (setBits (setBits (setBits (setBits (setBits (setBits (setBits (setBits (setBits
        (setBits (setBits 0 63 1 1) 39 1 1) 0 25 (UInt64.ofNat g.lsize - 1)) 25 7
        (UInt64.ofNat g.payload.length - 1)) 32 7 (UInt64.ofNat g.comp)) 48 8
        (UInt64.ofNat g.otype)) 32 7 (UInt64.ofNat g.comp)) 40 8 (UInt64.ofNat g.etype)) 48 8
        (UInt64.ofNat g.otype)) 56 5 (UInt64.ofNat g.level)) 61 1 (Builder.flag g.encrypted)) 62 1
        (Builder.flag g.dedup) := rfl
  rw [hword]
  constructor <;> simp (disch := decide) only [bits_setBits_same, bits_setBits_apart, flag_toNat]
  · exact biased_back h.lsize.1 h.lsize.2 (by decide)
  · exact toNat_ofNat_mod h.comp (by decide)
  · rfl
  · exact toNat_ofNat_mod h.etype (by decide)
  · exact toNat_ofNat_mod h.otype (by decide)
  · exact toNat_ofNat_mod h.level (by decide)
  · rfl

/-- The bits that are read back, but for a payload of no bytes. -/
theorem Fits.psize_iff {g : Embedded} (h : g.Fits) :
    bits (g.builder.word 6) 25 7 + 1 = g.payload.length ↔ g.payload ≠ [] := by
  rw [h.props.psize]
  have hle := h.payload
  have hroom : embeddedPayloadSize = 112 := rfl
  by_cases hempty : g.payload = []
  · rw [hempty]
    simp
  · have hpos := List.length_pos_iff.mpr hempty
    rw [biased_back hpos (by omega) (by decide)]
    simp [hempty]

/-- An embedded pointer is read back with all its fields, in both byte orders. -/
theorem Fits.parseFull {g : Embedded} (h : g.Fits) (e : Endian) :
    BlkPtr.parseFull (g.builder.bytes e) e =
      .ok { g.fields (g.builder.bytes e) with psize := bits (g.builder.word 6) 25 7 + 1 } := by
  have hw : ∀ i, i < 16 → (e.u64At (g.builder.bytes e) (i * 8)).getD 0 = g.builder.word i := by
    intro i hi
    rw [Builder.u64At_bytes_word _ _ hi, Option.getD_some]
  have hlen : ¬ (g.builder.bytes e).length < bpSize := by
    rw [Builder.bytes_length]
    exact Nat.lt_irrefl _
  have hprops := h.props
  have hlogical : bits (g.builder.word 10) 0 63 = g.logical := by
    show (UInt64.ofNat g.logical).toNat / 1 % 2 ^ 63 = _
    rw [Nat.div_one, toNat_ofNat_mod h.logical (by decide)]
  have hraw : (g.builder.bytes e).take bpSize = g.builder.bytes e := by
    rw [← Builder.bytes_length g.builder e, List.take_length]
  unfold BlkPtr.parseFull BlkPtr.parse
  rw [if_neg hlen]
  simp (disch := decide) only [Except.map, hw, hprops.lsize, hprops.comp, hprops.embedded,
    hprops.etype, hprops.otype, hprops.level, hprops.encrypted, hprops.dedup, hprops.little,
    hlogical, hraw, flag_ne_zero, Bool.decide_eq_true, ne_eq, one_ne_zero, not_false_iff,
    decide_true, if_true, true_or]
  rfl

/-! ### The payload -/

/-- The payload with the bytes of each of its words backwards. -/
def swapped (payload : List UInt8) : List UInt8 :=
  ((List.range 14).flatMap (fun n => (Builder.payloadGroup payload n).reverse)).take payload.length

theorem payloadGroup_length (payload : List UInt8) {n : Nat} (hn : n < 14) :
    (Builder.payloadGroup payload n).length = 8 := by
  have hroom : embeddedPayloadSize = 112 := rfl
  rw [Builder.payloadGroup, List.length_take, List.length_drop, setLen_length, hroom]
  omega

/-- The groups of eight bytes, one after another. -/
theorem groups_flatMap (l : List UInt8) (k : Nat) :
    (List.range k).flatMap (fun n => (l.drop (n * 8)).take 8) = l.take (k * 8) := by
  induction k with
  | zero => simp
  | succ k ih =>
    rw [List.range_succ, List.flatMap_append, ih, List.flatMap_singleton, Nat.succ_mul,
      List.take_add]

/-- The payload as it is stored: the words of the pointer, in its byte order. -/
theorem payloadWords_bytes (g : Embedded) (e : Endian) :
    Builder.payloadWords.flatMap (fun w => ((g.builder.bytes e).drop (w * 8)).take 8) =
      (List.range 14).flatMap (fun n =>
        e.bytes (Endian.leValue (Builder.payloadGroup g.payload n))) := by
  have hwords : Builder.payloadWords.map g.builder.word =
      (List.range 14).map (fun n => Endian.leValue (Builder.payloadGroup g.payload n)) := rfl
  have hread : Builder.payloadWords.flatMap (fun w => ((g.builder.bytes e).drop (w * 8)).take 8) =
      Builder.payloadWords.flatMap (fun w => e.bytes (g.builder.word w)) := by
    apply List.flatMap_congr
    intro w hw
    apply Builder.drop_bytes_word
    revert w
    decide
  have hmap := congrArg (List.flatMap e.bytes) hwords
  rw [List.flatMap_map, List.flatMap_map] at hmap
  rw [hread, hmap]

/-- The payload comes back as it is from a little-endian pointer, and swapped from another. -/
theorem Fits.embeddedPayload {g : Embedded} (h : g.Fits) (e : Endian) :
    ({ g.fields (g.builder.bytes e) with psize := g.payload.length } : Decoded).embeddedPayload =
      some (if e = .little then g.payload else swapped g.payload) := by
  have hgroup : ∀ n ∈ List.range 14, Endian.little.bytes (Endian.leValue
      (Builder.payloadGroup g.payload n)) = Builder.payloadGroup g.payload n := by
    intro n hn
    exact bytes_leValue (payloadGroup_length g.payload (List.mem_range.mp hn))
  have hpayload : (setLen g.payload embeddedPayloadSize).take g.payload.length = g.payload := by
    rw [setLen, List.take_of_length_le h.payload, List.take_left]
  show some ((Builder.payloadWords.flatMap
    (fun w => ((g.builder.bytes e).drop (w * 8)).take 8)).take g.payload.length) = _
  rw [payloadWords_bytes]
  cases e with
  | little =>
    rw [if_pos rfl, List.flatMap_congr hgroup]
    show some ((List.flatMap (fun n => ((setLen g.payload embeddedPayloadSize).drop (n * 8)).take 8)
      (List.range 14)).take g.payload.length) = _
    have hroom : g.payload.length ≤ 14 * 8 := h.payload
    rw [groups_flatMap, List.take_take, Nat.min_eq_left hroom, hpayload]
  | big =>
    have hswap : ∀ n ∈ List.range 14, Endian.big.bytes (Endian.leValue
        (Builder.payloadGroup g.payload n)) = (Builder.payloadGroup g.payload n).reverse :=
      fun n hn => congrArg List.reverse (hgroup n hn)
    rw [if_neg (by decide), List.flatMap_congr hswap, swapped]

end Embedded

/-! ## Round trips -/

/-- What the encoder is given. -/
inductive Given where
  | plain (g : Plain)
  | embedded (g : Embedded)

namespace Given

def builder : Given → Builder
  | plain g => g.builder
  | embedded g => g.builder

def fields : Given → (raw : List UInt8) → Decoded
  | plain g => g.fields
  | embedded g => g.fields

def payload : Given → Option (List UInt8)
  | plain _ => none
  | embedded g => some g.payload

def Fits : Given → Prop
  | plain g => g.Fits
  | embedded g => g.Fits

/-- The parser gives back every field that the encoder was given, and the payload. -/
def RoundTrips (g : Given) (e : Endian) : Prop :=
  ∃ p, BlkPtr.parseFull (g.builder.bytes e) e = .ok p ∧ p = g.fields (g.builder.bytes e) ∧
    p.embeddedPayload = g.payload

/-- What is written is read back, but for a payload of no bytes, and one in a big-endian pointer
whose words do not read the same backwards. -/
theorem roundTrips_iff {g : Given} (h : g.Fits) (e : Endian) :
    g.RoundTrips e ↔ ∀ m, g = .embedded m →
      m.payload ≠ [] ∧ (e = .little ∨ Embedded.swapped m.payload = m.payload) := by
  cases g with
  | plain g =>
    have hfits : g.Fits := h
    refine ⟨fun _ m hm => (by cases hm), fun _ => ⟨_, hfits.parseFull e, rfl, rfl⟩⟩
  | embedded g =>
    have hfits : g.Fits := h
    have hsize := hfits.psize_iff
    have hback := hfits.embeddedPayload e
    constructor
    · rintro ⟨p, hp, hfields, hpayload⟩ m hm
      cases hm
      have hsame := Except.ok.inj (hp.symm.trans (hfits.parseFull e))
      rw [hfields] at hsame hpayload
      have hpsize : bits (g.builder.word 6) 25 7 + 1 = g.payload.length :=
        (congrArg (fun q : Decoded => q.psize) hsame).symm
      refine ⟨hsize.mp hpsize, ?_⟩
      have hgiven : some (if e = .little then g.payload else Embedded.swapped g.payload) =
          some g.payload := hback.symm.trans hpayload
      by_cases he : e = .little
      · exact Or.inl he
      · rw [if_neg he] at hgiven
        exact Or.inr (Option.some.inj hgiven)
    · intro hread
      obtain ⟨hne, horder⟩ := hread g rfl
      have hparse := hfits.parseFull e
      rw [hsize.mpr hne] at hparse
      refine ⟨_, hparse, rfl, hback.trans (congrArg some ?_)⟩
      cases horder with
      | inl he => rw [if_pos he]
      | inr hswap =>
        rw [hswap]
        split <;> rfl

/-- A pointer that carries two bytes. -/
def pair : Given :=
  .embedded
    { payload := [1, 2]
      lsize := 2
      comp := 2
      etype := 0
      otype := 19
      level := 0
      encrypted := false
      dedup := false
      logical := 7 }

theorem pair_fits : pair.Fits :=
  { payload := by decide
    lsize := by decide
    comp := by decide
    etype := by decide
    otype := by decide
    level := by decide
    logical := by decide }

theorem roundTrips_iff_pair : pair.RoundTrips .little := by
  refine (roundTrips_iff pair_fits .little).mpr (fun m hm => ?_)
  cases hm
  exact ⟨by decide, Or.inl rfl⟩

/-- In a big-endian pointer the two bytes are lost. -/
theorem pair_lost : ¬ ∀ (g : Given) (e : Endian), g.Fits → g.RoundTrips e := by
  intro h
  obtain ⟨p, hp, -, hpayload⟩ := h pair .big pair_fits
  have hread : (BlkPtr.parseFull (pair.builder.bytes .big) .big).toOption.map
      (fun p => p.embeddedPayload) = some (some [0, 0]) := by decide +kernel
  rw [hp] at hread
  have hzeros : p.embeddedPayload = some [0, 0] := Option.some.inj hread
  rw [hpayload] at hzeros
  cases hzeros

end Given

/-! ## The parameters of encryption -/

namespace BlkPtr

/-- Salt and IV of an encrypted block, from the slot of the third DVA and the top of the
fill. -/
def cryptParams (bp : BlkPtr) : Option (UInt64 × UInt64 × Nat) :=
  if bp.isEncrypted then
    let w := fun i => (bp.endian.u64At bp.raw (i * 8)).getD 0
    some (w 4, w 5, bits (w 11) 32 32)
  else none

/-- The bytes of a word read the same backwards. -/
def Palindrome (w : UInt64) : Prop := Endian.big.bytes w = Endian.little.bytes w

theorem parse_raw {buf : List UInt8} {e : Endian} {bp : BlkPtr} (h : parse buf e = .ok bp) :
    bp.raw = buf.take bpSize := by
  unfold parse at h
  by_cases hlen : buf.length < bpSize
  · rw [if_pos hlen] at h
    cases h
  · rw [if_neg hlen] at h
    cases h
    rfl

/-- The upper half of a number of eight bytes. -/
theorem bits_leValue {l : List UInt8} (h : l.length = 8) :
    bits (Endian.leValue l) 32 32 = (Endian.leValue (l.drop 4)).toNat := by
  have hlow : (l.take 4).length = 4 := by rw [List.length_take, h]; rfl
  have hhigh : (l.drop 4).length = 4 := by rw [List.length_drop, h]
  have hsplit := leValue_append (l.take 4) (l.drop 4) (by omega)
  rw [List.take_append_drop, hlow] at hsplit
  have hlt := leValue_lt (l := l.take 4) (by omega)
  have hlt' := leValue_lt (l := l.drop 4) (by omega)
  rw [hlow] at hlt
  rw [hhigh] at hlt'
  rw [bits, hsplit]
  omega

/-- Read in the other order, a word is itself where it reads the same backwards. -/
theorem value_other_iff {e e' : Endian} (he : e' ≠ e) (w : UInt64) :
    e'.value (e.bytes w) = w ↔ Palindrome w := by
  have hback := Endian.value_bytes e' w
  have hinj : e'.value (e.bytes w) = e'.value (e'.bytes w) ↔ e.bytes w = e'.bytes w := by
    refine ⟨fun h => ?_, fun h => by rw [h]⟩
    cases e' with
    | little => exact leValue_inj (by simp) (by simp) h
    | big => exact List.reverse_injective (leValue_inj (by simp) (by simp) h)
  rw [hback] at hinj
  rw [hinj, Palindrome]
  cases e <;> cases e' <;> first | exact absurd rfl he | exact Iff.rfl | exact eq_comm

/-- So is its upper half. -/
theorem upper_other_iff {e e' : Endian} (he : e' ≠ e) (w : UInt64) :
    bits (e'.value (e.bytes w)) 32 32 = bits w 32 32 ↔ Palindrome w := by
  have hback := bits_leValue (Endian.bytes_length .little w)
  rw [leValue_bytes] at hback
  have hswap : e'.value (e.bytes w) = Endian.leValue (Endian.little.bytes w).reverse := by
    cases e <;> cases e' <;> first | exact absurd rfl he | rfl
  have hlen : (Endian.little.bytes w).reverse.length = 8 := by simp
  rw [hswap, bits_leValue hlen, hback, Palindrome]
  generalize hbytes : Endian.little.bytes w = l at hlen
  have hbig : Endian.big.bytes w = l.reverse := by
    rw [← hbytes]
    rfl
  rw [List.length_reverse] at hlen
  rw [hbig, UInt64.toNat_inj]
  refine ⟨fun h => ?_, fun h => by rw [h]⟩
  have hdrop := leValue_inj (by simp) (by simp; omega) h
  match l, hlen with
  | [b0, b1, b2, b3, b4, b5, b6, b7], _ =>
    have hall : [b3, b2, b1, b0] = [b4, b5, b6, b7] := hdrop
    simp only [List.cons.injEq, and_true] at hall
    obtain ⟨h3, h2, h1, h0⟩ := hall
    subst h3 h2 h1 h0
    rfl

/-- The byte order that the words of a pointer name. -/
def namedEndian (b : Builder) : Endian := if bits (b.word 6) 63 1 = 1 then .little else .big

theorem parse_named {b : Builder} {e : Endian} {bp : BlkPtr}
    (h : parse (b.bytes e) e = .ok bp) : bp.endian = namedEndian b := by
  have hprop : (e.u64At (b.bytes e) (6 * 8)).getD 0 = b.word 6 := by
    rw [b.u64At_bytes_word e (by decide), Option.getD_some]
  unfold parse at h
  split at h
  · cases h
  · cases h
    show (if bits ((e.u64At (b.bytes e) (6 * 8)).getD 0) 63 1 = 1 then Endian.little else .big) = _
    rw [hprop, namedEndian]

/-- An encrypted pointer gives the salt and IV that were written exactly where it names the byte
order that it is written in, or these words read the same backwards. -/
theorem cryptParams_iff (b : Builder) (e : Endian) {bp : BlkPtr}
    (hparse : parse (b.bytes e) e = .ok bp) (hencrypted : bp.isEncrypted = true) :
    bp.cryptParams = some (b.word 4, b.word 5, bits (b.word 11) 32 32) ↔
      namedEndian b = e ∨
        Palindrome (b.word 4) ∧ Palindrome (b.word 5) ∧ Palindrome (b.word 11) := by
  have hraw : bp.raw = b.bytes e := by
    rw [parse_raw hparse, ← b.bytes_length e, List.take_length]
  have hnamed := parse_named hparse
  have hw : ∀ i, i < 16 → (bp.endian.u64At bp.raw (i * 8)).getD 0 =
      bp.endian.value (e.bytes (b.word i)) := by
    intro i hi
    have hroom : i * 8 + 8 ≤ (b.bytes e).length := by
      rw [b.bytes_length, bpSize]
      omega
    rw [hraw, Endian.u64At, if_pos hroom, b.drop_bytes_word e hi, Option.getD_some]
  rw [cryptParams, if_pos hencrypted]
  simp (disch := decide) only [hw, Option.some.injEq, Prod.mk.injEq]
  rw [hnamed]
  by_cases he : namedEndian b = e
  · rw [he]
    simp only [Endian.value_bytes, true_and, true_or]
  · rw [value_other_iff he, value_other_iff he, upper_other_iff he]
    simp [he]

/-- A block of a plain file, encrypted by a little-endian host. -/
def sealedPointer : Builder :=
  ((((Builder.new.dva 0 { vdev := 0, offset := 8192, asize := 512, gang := false }).sizes 512
    512).props 2 8 19 0).flags true false).put 4 1

/-- Whether it is read as encrypted, with its salt and IV. -/
def sealedParams (e : Endian) : Option (Bool × Option (UInt64 × UInt64 × Nat)) :=
  (parse (sealedPointer.bytes e) e).toOption.map (fun bp => (bp.isEncrypted, bp.cryptParams))

theorem parse_sealed {e : Endian} {encrypted : Bool} {params : Option (UInt64 × UInt64 × Nat)}
    (h : sealedParams e = some (encrypted, params)) :
    ∃ bp, parse (sealedPointer.bytes e) e = .ok bp ∧ bp.isEncrypted = encrypted ∧
      bp.cryptParams = params := by
  unfold sealedParams at h
  cases hparse : parse (sealedPointer.bytes e) e with
  | error err =>
    rw [hparse] at h
    cases h
  | ok bp =>
    rw [hparse] at h
    cases h
    exact ⟨bp, rfl, rfl, rfl⟩

theorem cryptParams_iff_sealed : ∃ bp, parse (sealedPointer.bytes .little) .little = .ok bp ∧
    bp.cryptParams = some (1, 0, 0) := by
  have hread : sealedParams .little = some (true, some (1, 0, 0)) := by decide +kernel
  obtain ⟨bp, hbp, hencrypted, -⟩ := parse_sealed hread
  have hnamed : namedEndian sealedPointer = .little := by decide
  exact ⟨bp, hbp, (cryptParams_iff sealedPointer .little hbp hencrypted).mpr (Or.inl hnamed)⟩

/-- In a pool of the other byte order the salt of that block is read backwards. -/
theorem sealedPointer_lost : ¬ ∀ (b : Builder) (e : Endian) (bp : BlkPtr),
    parse (b.bytes e) e = .ok bp → bp.isEncrypted = true →
      bp.cryptParams = some (b.word 4, b.word 5, bits (b.word 11) 32 32) := by
  intro h
  have hread : sealedParams .big = some (true, some (0x0100000000000000, 0, 0)) := by
    decide +kernel
  obtain ⟨bp, hbp, hencrypted, hparams⟩ := parse_sealed hread
  have hgiven := h sealedPointer .big bp hbp hencrypted
  rw [hparams] at hgiven
  exact absurd hgiven (by decide)

end BlkPtr

end Ondisk
end ZvolRescue
