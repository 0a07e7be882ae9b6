import ZvolRescue.Ondisk.BlkPtr

/-!
# Decompression

`decompress` takes the bytes on disk and the logical size.  `lzjb` and `zle` are decoded
here; the decoders behind `lz4`, `gzip` and `zstd` are `Codecs`.
-/

namespace ZvolRescue
namespace Ondisk

inductive DecompressError where
  | unsupported (c : Compression)
  | corrupt (what : String)
  | sizeMismatch (expected got : Nat)
  deriving DecidableEq, Repr

def DecompressError.text : DecompressError → String
  | unsupported c => s!"unsupported compression {c.name}"
  | corrupt what => s!"corrupt compressed stream: {what}"
  | sizeMismatch expected got => s!"decompressed to {got} bytes, expected {expected}"

/-- The third-party decoders, by what they yield; `none` where they fail. -/
structure Codecs where
  /-- One LZ4 block, at most the given number of bytes. -/
  lz4Block : List UInt8 → Nat → Option (List UInt8)
  /-- A zlib stream, up to the given number of bytes. -/
  zlib : List UInt8 → Nat → Option (List UInt8)
  /-- Whether a frame header is accepted. -/
  zstdHeader : List UInt8 → Bool
  /-- A zstd frame, up to the given number of bytes. -/
  zstdFrame : List UInt8 → Nat → Option (List UInt8)

def checkSize (out : List UInt8) (lsize : Nat) : Except DecompressError (List UInt8) :=
  if out.length = lsize then .ok out else .error (.sizeMismatch lsize out.length)

/-- `n` bytes copied from `offset` before the end, one at a time: the run may overlap what
it produces. -/
def copyMatch (offset : Nat) : Nat → List UInt8 → List UInt8
  | 0, dst => dst
  | n + 1, dst => copyMatch offset n (dst ++ [dst.getD (dst.length - offset) 0])

/-- The loop of `lzjb`; every round yields a byte or fails, so `lsize` rounds are enough.
`bit` is the index of the copymap's bit in use, 8 when the next copymap is due. -/
def lzjbLoop (lsize : Nat) :
    Nat → List UInt8 → (copymap : UInt8) → (bit : Nat) → List UInt8 →
      Except DecompressError (List UInt8)
  | 0, _, _, _, dst => .ok dst
  | rounds + 1, src, copymap, bit, dst =>
    if dst.length ≥ lsize then .ok dst
    else
      let map : Option (UInt8 × Nat × List UInt8) :=
        if bit = 8 then
          match src with
          | [] => none
          | b :: rest => some (b, 0, rest)
        else some (copymap, bit, src)
      match map with
      | none => .error (.corrupt "lzjb: truncated copymap")
      | some (copymap, bit, src) =>
        if copymap.toNat.testBit bit then
          match src with
          | b0 :: b1 :: rest =>
            let offset := (b0.toNat * 256 + b1.toNat) % 1024
            if offset = 0 ∨ offset > dst.length then .error (.corrupt "lzjb: match before start")
            else
              let mlen := min (b0.toNat / 4 + 3) (lsize - dst.length)
              lzjbLoop lsize rounds rest copymap (bit + 1) (copyMatch offset mlen dst)
          | _ => .error (.corrupt "lzjb: truncated match")
        else
          match src with
          | b :: rest => lzjbLoop lsize rounds rest copymap (bit + 1) (dst ++ [b])
          | [] => .error (.corrupt "lzjb: truncated literal")

def lzjb (src : List UInt8) (lsize : Nat) : Except DecompressError (List UInt8) :=
  lzjbLoop lsize lsize src 0 8 []

/-- The loop of `zle`; every round takes a byte of the source. -/
def zleLoop (lsize : Nat) : Nat → List UInt8 → List UInt8 → Except DecompressError (List UInt8)
  | 0, _, dst => .ok dst
  | _ + 1, [], dst => .ok dst
  | rounds + 1, b :: src, dst =>
    if dst.length ≥ lsize then .ok dst
    else
      let len := 1 + b.toNat
      if len ≤ 64 then
        if len > src.length then .error (.corrupt "zle: truncated literal run")
        else zleLoop lsize rounds (src.drop len) (dst ++ src.take (min len (lsize - dst.length)))
      else
        zleLoop lsize rounds src (dst ++ List.replicate (min (len - 64) (lsize - dst.length)) 0)

def zle (src : List UInt8) (lsize : Nat) : Except DecompressError (List UInt8) :=
  (zleLoop lsize src.length src []).bind (fun dst => checkSize dst lsize)

/-- A big-endian 32-bit number. -/
def u32Be (bytes : List UInt8) : Nat := bytes.foldl (fun acc b => acc * 256 + b.toNat) 0

def lz4 (c : Codecs) (src : List UInt8) (lsize : Nat) : Except DecompressError (List UInt8) :=
  if src.length < 4 then .error (.corrupt "lz4: missing length prefix")
  else
    let clen := u32Be (src.take 4)
    if 4 + clen > src.length then .error (.corrupt "lz4: length prefix beyond input")
    else match c.lz4Block ((src.drop 4).take clen) lsize with
      | none => .error (.corrupt "lz4: invalid block")
      | some out => checkSize out lsize

def gzip (c : Codecs) (src : List UInt8) (lsize : Nat) : Except DecompressError (List UInt8) :=
  match c.zlib src (lsize + 1) with
  | none => .error (.corrupt "gzip: invalid zlib stream")
  | some out => checkSize out lsize

def zstdMagic : List UInt8 := [0x28, 0xb5, 0x2f, 0xfd]

def zstd (c : Codecs) (src : List UInt8) (lsize : Nat) : Except DecompressError (List UInt8) :=
  if src.length < 8 then .error (.corrupt "zstd: missing header")
  else
    let clen := u32Be (src.take 4)
    if 8 + clen > src.length then .error (.corrupt "zstd: length beyond input")
    else
      let frame := (src.drop 8).take clen
      let framed := if zstdMagic.isPrefixOf frame then frame else zstdMagic ++ frame
      if !c.zstdHeader framed then .error (.corrupt "zstd: invalid frame header")
      else match c.zstdFrame framed (lsize + 1) with
        | none => .error (.corrupt "zstd: invalid frame")
        | some out => checkSize out lsize

/-- `off` copies, padding or cutting to `lsize`. -/
def decompress (c : Codecs) (kind : Compression) (src : List UInt8) (lsize : Nat) :
    Except DecompressError (List UInt8) :=
  match kind with
  | .off => .ok (src.take lsize ++ List.replicate (lsize - src.length) 0)
  | .empty => .ok (List.replicate lsize 0)
  | .lzjb => lzjb src lsize
  | .zle => zle src lsize
  | .lz4 => lz4 c src lsize
  | .gzip _ => gzip c src lsize
  | .zstd => zstd c src lsize
  | .unknown code => .error (.unsupported (.unknown code))

example : lzjb [0x02, 97, 0x20, 0x01] 12 = .ok (List.replicate 12 97) := by decide +kernel

example : zle [2, 120, 121, 122, 68] 8 = .ok [120, 121, 122, 0, 0, 0, 0, 0] := by decide

end Ondisk
end ZvolRescue
