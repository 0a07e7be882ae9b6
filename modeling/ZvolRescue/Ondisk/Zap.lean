import ZvolRescue.Ondisk.Dnode
import ZvolRescue.Ondisk.Nvlist

/-!
# Maps of names

A microzap is one block of 64-byte entries with numbers as values.  A fatzap is a header with a
table of leaf blocks, and a leaf chains its entries, their names and their values through chunks
of 24 bytes.
-/

namespace ZvolRescue
namespace Ondisk

namespace Endian

/-- The 32-bit number at a byte offset. -/
def u32At (e : Endian) (buf : List UInt8) (off : Nat) : Nat :=
  match e with
  | .little => e.u16At buf off + 65536 * e.u16At buf (off + 2)
  | .big => 65536 * e.u16At buf off + e.u16At buf (off + 2)

end Endian

namespace Zap

def zbtLeaf : Nat := 2 ^ 63

def zbtHeader : Nat := 2 ^ 63 + 1

def zbtMicro : Nat := 2 ^ 63 + 3

def zapMagic : Nat := 0x2f52ab2ab

def leafMagic : Nat := 0x2ab1eaf

/-- Size of one microzap entry. -/
def mzapEntSize : Nat := 64

/-- Longest microzap name, with the byte that ends it. -/
def mzapNameLen : Nat := 50

def leafChunksize : Nat := 24

/-- Payload bytes in one array chunk. -/
def leafArrayBytes : Nat := 21

def leafHeaderSize : Nat := 48

def chunkArray : Nat := 251

def chunkEntry : Nat := 252

/-- The end of a chain of chunks. -/
def chainEnd : Nat := 0xffff

inductive BlockType where
  | micro
  | header
  | leaf
  deriving DecidableEq, Repr

/-- What the first word says the block is. -/
def blockType (buf : List UInt8) (endian : Endian) : Option BlockType :=
  match endian.u64At buf 0 with
  | none => none
  | some word =>
    if word.toNat = zbtMicro then some .micro
    else if word.toNat = zbtHeader then some .header
    else if word.toNat = zbtLeaf then some .leaf
    else none

inductive Value where
  | u64 (v : Nat)
  | u64Array (a : List Nat)
  /-- Integers of a byte, mostly text with a byte that ends it. -/
  | bytes (b : List UInt8)
  /-- Integers of another width, as they are. -/
  | ints (intlen : Nat) (raw : List UInt8)
  deriving DecidableEq, Repr

namespace Value

/-- The first number. -/
def asU64 : Value → Option Nat
  | u64 v => some v
  | u64Array a => a.head?
  | _ => none

def asStr : Value → Option String
  | bytes b => some (fromUtf8Lossy (b.takeWhile (fun c => c ≠ 0)))
  | _ => none

end Value

structure Entry where
  /-- The name as text. -/
  name : String
  /-- The name as it is on disk. -/
  raw : List UInt8
  value : Value
  /-- Tells names of one hash apart. -/
  cd : Nat
  deriving DecidableEq, Repr

/-- An entry whose name is `field` up to its first zero byte. -/
def Entry.of (field : List UInt8) (value : Value) (cd : Nat) : Entry :=
  let raw := field.takeWhile (fun c => c ≠ 0)
  { name := fromUtf8Lossy raw, raw, value, cd }

/-! ## Microzaps -/

def parseMicroChunk (chunk : List UInt8) (endian : Endian) : Option Entry :=
  if chunk.getD 14 0 = 0 then none
  else
    some (Entry.of ((chunk.drop 14).take mzapNameLen)
      (.u64 ((endian.u64At chunk 0).getD 0).toNat) (endian.u32At chunk 8))

def parseMicro (buf : List UInt8) (endian : Endian) : Except ParseError (List Entry) :=
  if blockType buf endian ≠ some .micro then .error (.malformed "not a microzap block" 0)
  else if buf.length < mzapEntSize then .error (.truncated mzapEntSize buf.length)
  else
    let entries := buf.drop mzapEntSize
    .ok ((chunksExact mzapEntSize entries.length entries).filterMap
      (fun chunk => parseMicroChunk chunk endian))

/-! ## Headers -/

structure FatHeader where
  /-- First block of a table outside the header. -/
  ptrtblBlk : Nat
  /-- Blocks of that table; none where it is in the header. -/
  ptrtblNumblks : Nat
  deriving DecidableEq, Repr

def parseFatHeader (buf : List UInt8) (endian : Endian) : Except ParseError FatHeader :=
  if blockType buf endian ≠ some .header then .error (.malformed "not a fatzap header block" 0)
  else if buf.length < 104 then .error (.truncated 104 buf.length)
  else
    let w := fun o => ((endian.u64At buf o).getD 0).toNat
    if w 8 ≠ zapMagic then .error (.badMagic (w 8))
    else .ok { ptrtblBlk := w 16, ptrtblNumblks := w 24 }

/-- A block of a table, as the numbers it holds. -/
def ptrtblBlock (buf : List UInt8) (endian : Endian) : List Nat :=
  (chunksExact 8 buf.length buf).map (fun c => (endian.value c).toNat)

/-- The table in the second half of the header. -/
def embeddedPtrtbl (buf : List UInt8) (endian : Endian) : List Nat :=
  ptrtblBlock (buf.drop (buf.length / 2)) endian

/-! ## Leaves -/

/-- Hash entries of a leaf of `2 ^ blockShift` bytes. -/
def leafHashEntries (blockShift : Nat) : Nat := 2 ^ (blockShift - 5)

def leafNumchunks (blockShift : Nat) : Nat :=
  (2 ^ blockShift - 2 * leafHashEntries blockShift) / leafChunksize - 2

def leafChunksOffset (blockShift : Nat) : Nat := leafHeaderSize + 2 * leafHashEntries blockShift

/-- A leaf block, as its chunks are found. -/
structure Leaf where
  buf : List UInt8
  endian : Endian
  base : Nat
  nchunks : Nat

namespace Leaf

def chunk (l : Leaf) (i : Nat) : Option (List UInt8) :=
  let start := l.base + i * leafChunksize
  if i < l.nchunks ∧ start + leafChunksize ≤ l.buf.length then
    some ((l.buf.drop start).take leafChunksize)
  else none

/-- Follow a chain of array chunks for `left` more bytes; each round takes one at least. -/
def readArray (l : Leaf) : (rounds cur left hops : Nat) → List UInt8 →
    Except ParseError (List UInt8)
  | 0, _, _, _, out => .ok out
  | rounds + 1, cur, left, hops, out =>
    if left = 0 then .ok out
    else match l.chunk cur with
    | none => .error (.malformed "ZAP array chunk index out of range" l.base)
    | some c =>
      if (c.getD 0 0).toNat ≠ chunkArray then
        .error (.malformed "ZAP array chain hits a non-array chunk" l.base)
      else
        let take := min left leafArrayBytes
        let next := l.endian.u16At c 22
        if left - take > 0 ∧ (next = chainEnd ∨ hops + 1 > l.nchunks) then
          .error (.malformed "ZAP array chain ends early" l.base)
        else readArray l rounds next (left - take) (hops + 1) (out ++ (c.drop 1).take take)

def array (l : Leaf) (first len : Nat) : Except ParseError (List UInt8) :=
  l.readArray len first len 0 []

/-- The value of integers of `intlen` bytes. -/
def value (intlen : Nat) (bytes : List UInt8) : Value :=
  if intlen = 8 then
    match (chunksExact 8 bytes.length bytes).map (fun c => (Endian.big.value c).toNat) with
    | [v] => .u64 v
    | ints => .u64Array ints
  else if intlen = 1 then .bytes bytes
  else .ints intlen bytes

/-- The entry whose chunk begins at byte `at_`. -/
def entryAt (l : Leaf) (at_ intlen : Nat) : Except ParseError Entry := do
  let name ← l.array (l.endian.u16At l.buf (at_ + 4)) (l.endian.u16At l.buf (at_ + 6))
  let bytes ← l.array (l.endian.u16At l.buf (at_ + 8)) (intlen * l.endian.u16At l.buf (at_ + 10))
  pure (Entry.of name (value intlen bytes) (l.endian.u32At l.buf (at_ + 12)))

/-- The entries of the chunks from `i` on; a chunk number is looked up by its low 16 bits. -/
def entriesFrom (l : Leaf) : (left i : Nat) → Except ParseError (List Entry)
  | 0, _ => .ok []
  | left + 1, i =>
    match l.chunk (i % 65536) with
    | none => .ok []
    | some c =>
      if (c.getD 0 0).toNat ≠ chunkEntry then entriesFrom l left (i + 1)
      else do
        let entry ← l.entryAt (l.base + i * leafChunksize) (c.getD 1 0).toNat
        let rest ← entriesFrom l left (i + 1)
        pure (entry :: rest)

end Leaf

def parseLeaf (buf : List UInt8) (endian : Endian) : Except ParseError (List Entry) :=
  if blockType buf endian ≠ some .leaf then .error (.malformed "not a ZAP leaf block" 0)
  else
    let blockShift := Nat.log2 buf.length
    if 2 ^ blockShift ≠ buf.length ∨ buf.length < 1024 then
      .error (.malformed "leaf block size not a power of two >= 1 KiB" 0)
    else if endian.u32At buf 24 ≠ leafMagic then .error (.badMagic (endian.u32At buf 24))
    else
      let l : Leaf :=
        { buf, endian
          base := leafChunksOffset blockShift
          nchunks := leafNumchunks blockShift }
      l.entriesFrom l.nchunks 0

end Zap

end Ondisk
end ZvolRescue
