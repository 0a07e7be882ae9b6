import Mathlib.Algebra.Group.Nat.Defs
import Mathlib.Data.List.Basic
import ZvolRescue.Ondisk.Error
import ZvolRescue.Ondisk.Fletcher

/-!
# Block pointers

A block pointer is 16 words.  Three DVAs address up to three copies, one word packs sizes
and codes, and an embedded pointer carries its payload in place of DVAs and checksum.
-/

namespace ZvolRescue
namespace Ondisk

/-- Size of a block pointer. -/
def bpSize : Nat := 128

def minBlockShift : Nat := 9

def embeddedPayloadSize : Nat := 112

/-- Bytes a leaf reserves in front of what DVA offsets count from. -/
def labelStartSize : Nat := 4 * 1024 * 1024

/-- `len` bits of `x` from bit `low` on. -/
def bits (x : UInt64) (low len : Nat) : Nat := x.toNat / 2 ^ low % 2 ^ len

/-- A copy of the block on one top-level vdev. -/
structure Dva where
  vdev : Nat
  offset : Nat
  asize : Nat
  gang : Bool
  deriving DecidableEq, Repr

namespace Dva

def empty : Dva := { vdev := 0, offset := 0, asize := 0, gang := false }

def isEmpty (d : Dva) : Bool := d.vdev = 0 && d.offset = 0 && d.asize = 0 && !d.gang

def fromWords (w0 w1 : UInt64) : Dva :=
  { asize := bits w0 0 24 * 2 ^ minBlockShift
    vdev := bits w0 32 32
    -- The 63-bit offset loses its top bits when it is shifted.
    offset := bits w1 0 63 * 2 ^ minBlockShift % 2 ^ 64
    gang := bits w1 63 1 ≠ 0 }

end Dva

inductive Compression where
  | off
  | empty
  | lzjb
  | gzip (level : Nat)
  | zle
  | lz4
  | zstd
  | unknown (code : Nat)
  deriving DecidableEq, Repr

namespace Compression

def fromCode (c : Nat) : Compression :=
  if c ≤ 2 then off
  else if c = 3 then lzjb
  else if c = 4 then empty
  else if c ≤ 13 then gzip (c - 4)
  else if c = 14 then zle
  else if c = 15 then lz4
  else if c = 16 then zstd
  else unknown c

def name : Compression → String
  | off => "off"
  | empty => "empty"
  | lzjb => "lzjb"
  | gzip n => s!"gzip-{n}"
  | zle => "zle"
  | lz4 => "lz4"
  | zstd => "zstd"
  | unknown c => s!"unknown-{c}"

end Compression

inductive Checksum where
  | off
  | label
  | gangHeader
  | zilog
  | fletcher2
  | fletcher4
  | sha256
  | noParity
  | sha512
  | skein
  | edonr
  | blake3
  | unknown (code : Nat)
  deriving DecidableEq, Repr

namespace Checksum

def fromCode (c : Nat) : Checksum :=
  if c ≤ 2 then off
  else if c = 3 then label
  else if c = 4 then gangHeader
  else if c = 5 ∨ c = 9 then zilog
  else if c = 6 then fletcher2
  else if c = 7 then fletcher4
  else if c = 8 then sha256
  else if c = 10 then noParity
  else if c = 11 then sha512
  else if c = 12 then skein
  else if c = 13 then edonr
  else if c = 14 then blake3
  else unknown c

/-- Kept whole under encryption; the others are folded. -/
def dedupCapable : Checksum → Bool
  | sha256 | sha512 | skein | blake3 => true
  | _ => false

end Checksum

/-- The object type of an objset block. -/
def otObjset : Nat := 11

/-- Whether level-0 blocks of an object type are ciphertext in an encrypted dataset. -/
def otIsEncrypted (t : Nat) : Bool :=
  if t.testBit 7 then t.testBit 5
  else t ∈ [9, 10, 18, 19, 20, 22, 23, 25, 26, 33, 34, 35, 39, 40, 44, 45, 46, 47, 49]

structure BlkPtr where
  dva0 : Dva
  dva1 : Dva
  dva2 : Dva
  lsize : Nat
  psize : Nat
  compression : Compression
  checksum : Checksum
  objectType : Nat
  level : Nat
  endian : Endian
  encrypted : Bool
  embedded : Bool
  physicalBirth : Nat
  birth : Nat
  cksum : Words
  /-- The bytes the pointer was parsed from. -/
  raw : List UInt8
  deriving DecidableEq, Repr

namespace BlkPtr

def parse (buf : List UInt8) (endian : Endian) : Except ParseError BlkPtr :=
  if buf.length < bpSize then .error (.truncated bpSize buf.length)
  else
    let w := fun i => (endian.u64At buf (i * 8)).getD 0
    let prop := w 6
    let embedded := bits prop 39 1 ≠ 0
    let byteorder := if bits prop 63 1 = 1 then Endian.little else Endian.big
    let objectType := bits prop 48 8
    let level := bits prop 56 5
    let encrypted := bits prop 61 1 ≠ 0
    let hole := ¬ embedded ∧ w 0 = 0 ∧ w 1 = 0
    -- The third DVA slot of a ciphertext block carries the salt and IV.
    let ciphertext := encrypted ∧ ¬ hole ∧ ¬ embedded ∧ level = 0 ∧ otIsEncrypted objectType
    .ok
      { dva0 := if embedded then Dva.empty else Dva.fromWords (w 0) (w 1)
        dva1 := if embedded then Dva.empty else Dva.fromWords (w 2) (w 3)
        dva2 := if embedded ∨ ciphertext then Dva.empty else Dva.fromWords (w 4) (w 5)
        lsize :=
          if embedded then bits prop 0 25 + 1 else (bits prop 0 16 + 1) * 2 ^ minBlockShift
        psize :=
          if embedded then bits prop 25 7 + 1 else (bits prop 16 16 + 1) * 2 ^ minBlockShift
        compression := Compression.fromCode (bits prop 32 7)
        checksum := Checksum.fromCode (if embedded then 0 else bits prop 40 8)
        objectType, level
        endian := byteorder
        encrypted, embedded
        physicalBirth := if embedded then 0 else bits (w 9) 0 63
        birth := bits (w 10) 0 63
        cksum :=
          if embedded then { w0 := 0, w1 := 0, w2 := 0, w3 := 0 }
          else { w0 := w 12, w1 := w 13, w2 := w 14, w3 := w 15 }
        raw := buf.take bpSize }

/-- The three DVAs, in order. -/
def dva (bp : BlkPtr) : List Dva := [bp.dva0, bp.dva1, bp.dva2]

/-- Nothing allocated, reads as zeros. -/
def isHole (bp : BlkPtr) : Bool := !bp.embedded && bp.dva0.isEmpty

/-- The block belongs to an encrypted dataset. -/
def usesCrypt (bp : BlkPtr) : Bool := bp.encrypted && !bp.embedded && !bp.isHole

/-- The bytes on disk are ciphertext. -/
def isEncrypted (bp : BlkPtr) : Bool :=
  bp.usesCrypt && bp.level = 0 && otIsEncrypted bp.objectType

def physicalBirthOrLogical (bp : BlkPtr) : Nat :=
  if bp.physicalBirth = 0 then bp.birth else bp.physicalBirth

/-- The DVAs that are in use, in order. -/
def dvas (bp : BlkPtr) : List Dva := bp.dva.filter (fun d => !d.isEmpty)

/-- The payload of an embedded pointer: all words but the packed one and the birth. -/
def embeddedPayload (bp : BlkPtr) : Option (List UInt8) :=
  if !bp.embedded then none
  else
    some (([0, 1, 2, 3, 4, 5, 7, 8, 9, 11, 12, 13, 14, 15].flatMap
      (fun word => (bp.raw.drop (word * 8)).take 8)).take bp.psize)

end BlkPtr

/-! ## Gang block headers -/

def gangHeaderSize : Nat := 512

/-- Size of the checksum tail of a header. -/
def eckSize : Nat := 40

/-- Block pointers a gang header of `size` bytes holds. -/
def gangNblkptrs (size : Nat) : Nat := (size - eckSize) / bpSize

def parseGangHeader (buf : List UInt8) (endian : Endian) : Except ParseError (List BlkPtr) :=
  if buf.length < gangHeaderSize then .error (.truncated gangHeaderSize buf.length)
  else
    (List.range (gangNblkptrs buf.length)).mapM
      (fun i => BlkPtr.parse ((buf.drop (i * bpSize)).take bpSize) endian)

end Ondisk
end ZvolRescue
