import ZvolRescue.Carve.Codec
import ZvolRescue.Ondisk.Carve
import ZvolRescue.Ondisk.Objset
import ZvolRescue.Source.Medium

/-!
# Scanning one member for metadata

`scanMember` reads a member in chunks, each with a tail.  The slots of a chunk are judged by
the bytes of the chunk alone, the blocks that begin in it by the bytes of the tail as well.
-/

namespace ZvolRescue
namespace Carve
namespace Member

open Lib Ondisk Source

/-! ## What is found -/

/-- How the bytes of a hit were found. -/
inductive Found where
  | plaintext
  | compressed (codec : Codec)
  deriving DecidableEq, Repr

def Found.asStr : Found → String
  | plaintext => "plaintext"
  | compressed codec => codec.asStr

/-- A dnode that was found. -/
structure Hit where
  device : Nat
  /-- Offset of the dnode, or of the compressed block that holds it. -/
  offset : Nat
  /-- The slot inside the block, of a compressed hit. -/
  slot : Nat
  found : Found
  dnode : DnodePhys
  /-- The fields of the profile that it fails. -/
  misses : List Reject
  deriving DecidableEq, Repr

/-- An object-set header that was found. -/
structure RootHit where
  device : Nat
  offset : Nat
  found : Found
  objset : ObjsetPhys
  deriving DecidableEq, Repr

structure Options where
  profile : Profile
  /-- The fields of the profile are filters rather than hints. -/
  strictProfile : Bool
  /-- Start and end of what is read; the whole member if absent. -/
  range : Option (Nat × Nat)
  codecs : List Codec
  /-- Sizes that a block is tried at. -/
  blockSizes : List Nat
  maxHits : Nat
  collectHits : Bool
  chunk : Nat

/-- What a scan has found so far. -/
structure Scan where
  hits : List Hit
  /-- How many candidates each reason accounted for. -/
  counts : Reject → Nat
  bytesRead : Nat
  slotsExamined : Nat
  /-- Offset that the scan reached. -/
  resumeAt : Nat
  stoppedEarly : Bool
  datasets : List Hit
  roots : List RootHit
  rootsTruncated : Bool

/-- The type of a DSL dataset. -/
def otDslDataset : Nat := 16

/-- The type of the dnodes of an object set. -/
def otDnode : Nat := 10

/-- How many object-set headers are kept. -/
def maxRoots : Nat := 4096

namespace Scan

def start (at_ : Nat) : Scan :=
  { hits := [], counts := fun _ => 0, bytesRead := 0, slotsExamined := 0, resumeAt := at_
    stoppedEarly := false, datasets := [], roots := [], rootsTruncated := false }

def bump (s : Scan) (r : Reject) : Scan :=
  { s with counts := fun x => if x = r then s.counts x + 1 else s.counts x }

def looked (s : Scan) : Scan := { s with slotsExamined := s.slotsExamined + 1 }

def reach (s : Scan) (at_ : Nat) : Scan := { s with resumeAt := at_ }

def addRead (s : Scan) (n : Nat) : Scan := { s with bytesRead := s.bytesRead + n }

end Scan

/-! ## One candidate -/

/-- The header of the object set of a pool that `buf` begins with. -/
def asMetaObjset (buf : List UInt8) : Option ObjsetPhys :=
  if buf.length < 1024 then none
  else
    match plausibleHead buf with
    | .error _ => none
    | .ok () =>
      match ObjsetPhys.parse buf .little with
      | .error _ => none
      | .ok os =>
        if os.metaDnode.objectType ≠ otDnode ∨ os.osType ≠ .meta_ then none
        else if os.metaDnode.blkptr.any (fun b => !b.isHole) then some os
        else none

def considerRoot (s : Scan) (root : RootHit) : Scan :=
  if s.roots.length ≥ maxRoots then { s with rootsTruncated := true }
  else { s with roots := s.roots ++ [root] }

section Consider

variable (opts : Options) (device : Nat)

/-- A dataset is kept, whatever is looked for. -/
def considerDataset (s : Scan) (offset slot : Nat) (found : Found) (dnode : DnodePhys) : Scan :=
  if dnode.objectType = otDslDataset ∧ s.datasets.length < opts.maxHits then
    { s with datasets := s.datasets ++ [{ device, offset, slot, found, dnode, misses := [] }] }
  else s

/-- Judge a dnode and record it if it survives. -/
def consider (s : Scan) (offset slot : Nat) (found : Found) (dnode : DnodePhys) : Scan :=
  if ¬ opts.collectHits then s
  else
    match plausibleDnode dnode with
    | .error r => s.bump r
    | .ok () =>
      let s := considerDataset opts device s offset slot found dnode
      let misses := opts.profile.misses dnode
      let s := misses.foldl Scan.bump s
      if opts.strictProfile ∧ misses ≠ [] then s
      else if s.hits.length ≥ opts.maxHits then { s with stoppedEarly := true }
      else { s with hits := s.hits ++ [{ device, offset, slot, found, dnode, misses }] }

/-- Judge the dnode that `buf` begins with. -/
def considerSlot (s : Scan) (offset slot : Nat) (found : Found) (buf : List UInt8) : Scan :=
  let s := s.looked
  match plausibleHead buf with
  | .error r => s.bump r
  | .ok () =>
    match DnodePhys.parse buf .little with
    | .ok dnode => consider opts device s offset slot found dnode
    | .error _ => s.bump .bonusLen

/-- The header that `buf` begins with, if it does. -/
def considerHeader (s : Scan) (offset : Nat) (found : Found) (buf : List UInt8) : Scan :=
  match asMetaObjset buf with
  | some objset => considerRoot s { device, offset, found, objset }
  | none => s

/-! ## The two passes -/

/-- The slots of a chunk at `base`, from slot `i` on. -/
def plaintextFrom (base : Nat) (buf : List UInt8) : (left i : Nat) → Scan → Scan
  | 0, _, s => s
  | left + 1, i, s =>
    let here := buf.drop (i * dnodeSize)
    let s := considerSlot opts device s (base + i * dnodeSize) 0 .plaintext here
    let s := considerHeader device s (base + i * dnodeSize) .plaintext here
    plaintextFrom base buf left (i + 1) s

def plaintextPass (s : Scan) (base : Nat) (buf : List UInt8) : Scan :=
  plaintextFrom opts device base buf (buf.length / dnodeSize) 0 s

/-- The slots of a block that was decompressed, from slot `i` on. -/
def slotsFrom (offset : Nat) (codec : Codec) (out : List UInt8) : (left i : Nat) → Scan → Scan
  | 0, _, s => s
  | left + 1, i, s =>
    slotsFrom offset codec out left (i + 1)
      (considerSlot opts device s offset i (.compressed codec) (out.drop (i * dnodeSize)))

/-- What `buf` decompresses to with the first size that it does. -/
def decompressAny (c : Codecs) (codec : Codec) (buf : List UInt8) : List Nat → Option (List UInt8)
  | [] => none
  | lsize :: rest =>
    if codec.couldStart buf lsize then
      match codec.decompress c buf lsize with
      | some out => some out
      | none => decompressAny c codec buf rest
    else decompressAny c codec buf rest

/-- Try one codec on the block that begins at `offset`. -/
def tryCodec (c : Codecs) (s : Scan) (offset : Nat) (buf : List UInt8) (codec : Codec) : Scan :=
  match decompressAny c codec buf opts.blockSizes with
  | none => s
  | some out =>
    slotsFrom opts device offset codec out (out.length / dnodeSize) 0
      (considerHeader device s offset (.compressed codec) out)

def compressedPass (c : Codecs) (s : Scan) (offset : Nat) (buf : List UInt8) : Scan :=
  opts.codecs.foldl (fun s codec => tryCodec opts device c s offset buf codec) s

/-- The blocks that begin at each step of a chunk's own bytes, from step `j` on. -/
def blocksFrom (c : Codecs) (step base : Nat) (window : List UInt8) :
    (left j : Nat) → Scan → Scan
  | 0, _, s => s
  | left + 1, j, s =>
    blocksFrom c step base window left (j + 1)
      (compressedPass opts device c s (base + j * step) (window.drop (j * step)))

end Consider

/-! ## The member -/

/-- A source of bytes of which some are not readable. -/
structure Surface where
  size : Nat
  read : (offset n : Nat) → Option (List UInt8)

/-- A member without unreadable bytes. -/
def ofMedium (m : Medium) : Surface :=
  { size := m.size, read := fun offset n => (m.readAt offset n).toOption }

/-- Distance of the places that a block is tried at. -/
def stepOf (ashift : Nat) : Nat := 2 ^ max 9 (min ashift 17)

/-- Bytes that a chunk is read past its end. -/
def overlap (opts : Options) : Nat := max (opts.blockSizes.foldl max 0) (dnodeSize * 256) + 4

def rangeOf (opts : Options) (size : Nat) : Nat × Nat :=
  match opts.range with
  | some (start, end_) => (start, min end_ size)
  | none => (0, size)

section Scan

variable (c : Codecs) (src : Surface) (device ashift : Nat) (opts : Options)

/-- Bytes that are read at `at_`. -/
def readable (end_ at_ : Nat) : Nat :=
  min (src.size - at_) (min (end_ - at_ + overlap opts) (opts.chunk + overlap opts))

/-- Bytes of the chunk at `at_` itself. -/
def ownOf (end_ at_ : Nat) : Nat := min opts.chunk (end_ - at_)

/-- Both passes over a chunk. -/
def scanChunk (end_ at_ : Nat) (window : List UInt8) (s : Scan) : Scan :=
  let own := ownOf opts end_ at_
  let s := plaintextPass opts device s at_ (window.take (min own window.length))
  if opts.codecs = [] then s
  else
    let step := stepOf ashift
    blocksFrom opts device c step at_ window (divCeil (min own window.length) step) 0 s

/-- The chunks from `at_` on; `stop` says where the scan is interrupted, and it is none while
the scan has not come to an end. -/
def scanFrom (stop : Nat → Bool) (end_ : Nat) : (fuel at_ : Nat) → Scan → Option Scan
  | 0, _, _ => none
  | fuel + 1, at_, s =>
    if at_ < end_ then
      if stop at_ then some { s.reach at_ with stoppedEarly := true }
      else if readable src opts end_ at_ < dnodeSize then some s
      else
        match src.read at_ (readable src opts end_ at_) with
        | none =>
          -- A chunk that cannot be read is skipped.
          scanFrom stop end_ fuel (at_ + opts.chunk) (s.reach (at_ + opts.chunk))
        | some window =>
          let s := scanChunk c device ashift opts end_ at_ window
            (s.addRead (readable src opts end_ at_))
          if s.stoppedEarly then some (s.reach at_)
          else
            scanFrom stop end_ fuel (at_ + opts.chunk) (s.reach (min (at_ + opts.chunk) end_))
    else some s

/-- The scan of a member within so many chunks. -/
def scanMember (stop : Nat → Bool) (fuel : Nat) : Option Scan :=
  let range := rangeOf opts src.size
  scanFrom c src device ashift opts stop range.2 fuel range.1 (Scan.start range.1)

end Scan

end Member
end Carve
end ZvolRescue
