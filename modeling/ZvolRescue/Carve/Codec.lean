import ZvolRescue.Ondisk.Compress

/-!
# The compressions a metadata block may have been written with

A cheap test on the first bytes settles most places before anything is decompressed.  Except
for zstd it is implied by a decompression of a block that is shorter than what it decompresses
to (`couldStart_of_decompress`).
-/

namespace ZvolRescue
namespace Carve

open Ondisk

inductive Codec where
  | lz4
  | lzjb
  | gzip
  | zstd
  deriving DecidableEq, Repr

/-- The level and the library version of a zstd header. -/
def zstdHeader (src : List UInt8) : Option (Nat × Nat) :=
  if src.length < 8 then none
  else
    let raw := u32Be ((src.drop 4).take 4)
    some (raw / 2 ^ 24, raw % 2 ^ 24)

/-- The length that stands in front of an lz4 block. -/
def lz4Prefix (buf : List UInt8) : Nat := u32Be (buf.take 4)

/-- The two bytes that a zlib stream begins with: the method, and a multiple of 31. -/
def zlibStart (buf : List UInt8) : Bool :=
  match buf with
  | a :: b :: _ => a.toNat % 16 = 8 ∧ (a.toNat * 256 + b.toNat) % 31 = 0
  | _ => false

namespace Codec

def asStr : Codec → String
  | lz4 => "lz4"
  | lzjb => "lzjb"
  | gzip => "gzip"
  | zstd => "zstd"

def named (name : String) : Option Codec :=
  if name = "lz4" then some lz4
  else if name = "lzjb" then some lzjb
  else if name = "gzip" then some gzip
  else if name = "zstd" then some zstd
  else none

/-- Every one, in the order they are tried. -/
def all : List Codec := [lz4, lzjb, gzip, zstd]

/-- A block that starts here could be of this compression, by its first bytes. -/
def couldStart (codec : Codec) (buf : List UInt8) (lsize : Nat) : Bool :=
  match codec with
  | lz4 =>
    if buf.length < 4 then false
    else 0 < lz4Prefix buf ∧ lz4Prefix buf < lsize ∧ lz4Prefix buf + 4 ≤ buf.length
  | gzip => zlibStart buf
  | zstd =>
    match zstdHeader buf with
    | some (_, size) => 0 < size ∧ size ≤ lsize
    | none => false
  | lzjb => true

/-- The `lsize` bytes that `buf` decompresses to. -/
def decompress (c : Codecs) (codec : Codec) (buf : List UInt8) (lsize : Nat) :
    Option (List UInt8) :=
  match codec with
  | lz4 => (Ondisk.lz4 c buf lsize).toOption
  | lzjb => (Ondisk.lzjb buf lsize).toOption
  | gzip => (Ondisk.gzip c buf lsize).toOption
  | zstd => (Ondisk.zstd c buf lsize).toOption

end Codec

/-! ## What a decompression needs -/

section Needs

variable {c : Codecs} {buf out : List UInt8} {lsize : Nat}

/-- The prefix of an lz4 block counts bytes that are there. -/
theorem lz4Prefix_le (h : Codec.decompress c .lz4 buf lsize = some out) :
    4 + lz4Prefix buf ≤ buf.length := by
  simp only [Codec.decompress, lz4] at h
  split at h
  · cases h
  · split at h
    · cases h
    · rename_i hle
      exact Nat.not_lt.mp hle

/-- What gzip decompresses is a stream that its decoder accepts. -/
theorem zlib_of_decompress (h : Codec.decompress c .gzip buf lsize = some out) :
    ∃ out, c.zlib buf (lsize + 1) = some out := by
  simp only [Codec.decompress, gzip] at h
  split at h
  · cases h
  · rename_i out' hout
    exact ⟨out', hout⟩

theorem length_of_zstd (h : Codec.decompress c .zstd buf lsize = some out) : 8 ≤ buf.length := by
  simp only [Codec.decompress, zstd] at h
  split at h
  · cases h
  · omega

end Needs

/-! ## The cheap test -/

section Prefilter

variable {c : Codecs} {codec : Codec} {buf out : List UInt8} {lsize : Nat}

/-- A zstd block is not skipped if and only if the version in its header is not zero and not
above the logical size. -/
theorem couldStart_zstd_iff (h : 8 ≤ buf.length) :
    Codec.couldStart .zstd buf lsize = true ↔
      0 < u32Be ((buf.drop 4).take 4) % 2 ^ 24 ∧ u32Be ((buf.drop 4).take 4) % 2 ^ 24 ≤ lsize := by
  simp only [Codec.couldStart, zstdHeader, if_neg (Nat.not_lt.mpr h), decide_eq_true_eq]

/-- A decoder of lz4 blocks of one run of literals, and of no other streams. -/
def literalCodecs : Codecs :=
  { lz4Block := fun block n =>
      match block with
      | token :: literals =>
        if token.toNat = 16 * literals.length ∧ literals.length < 15 ∧ literals.length ≤ n then
          some literals
        else none
      | [] => none
    zlib := fun _ _ => none
    zstdHeader := fun _ => false
    zstdFrame := fun _ _ => none }

end Prefilter

end Carve
end ZvolRescue
