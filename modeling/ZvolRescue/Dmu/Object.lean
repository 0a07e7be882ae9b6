import Mathlib.Data.UInt
import ZvolRescue.Lib.Sparse
import ZvolRescue.Ondisk.Dnode
import ZvolRescue.Zio.Verified

/-!
# Objects

An object is read by walking the block tree under its dnode.  `locate` finds the pointer of
a data block, `readBlkidExt` its bytes.  The dnodes of an object set are the data of one object.
-/

namespace ZvolRescue
namespace Dmu

open Lib Ondisk Zio

/-- What is left of a block on a member with bad sectors: the bytes, zeros where they could
not be read, and the ranges that could not. -/
abbrev Salvage := List UInt8 × List (Nat × Nat)

/-- The operations of a pool reader. -/
structure PoolReader (m : Type → Type) where
  readBlock : BlkPtr → m (Except ReadError Block)
  verify : BlkPtr → List UInt8 → m Verify
  salvageDva : Dva → (psize : Nat) → m (Except ReadError Salvage)

/-- The data of one object. -/
structure ObjectReader (m : Type → Type) where
  reader : PoolReader m
  dnode : DnodePhys
  endian : Endian

namespace ObjectReader

variable {m : Type → Type} [Monad m] (obj : ObjectReader m)

/-- log2 of block pointers per indirect block. -/
def epbs : Nat := obj.dnode.indblkshift - 7

/-- From a pointer at `level` down to the block `blkid`. -/
def locateFrom (blkid : Nat) : (level : Nat) → BlkPtr → m (Except ReadError (Option BlkPtr))
  | 0, bp => pure (.ok (if bp.isHole then none else some bp))
  | level + 1, bp =>
    if bp.isHole then pure (.ok none)
    else do
      match ← obj.reader.readBlock bp with
      | .error e => pure (.error e)
      | .ok block =>
        -- A mask of `epbs` ones is a remainder.
        let index := shr64 blkid (obj.epbs * level) % shl64 1 obj.epbs
        let at_ := mul64 index bpSize
        if at_ + bpSize ≤ block.data.length then
          match BlkPtr.parse ((block.data.drop at_).take bpSize) bp.endian with
          | .error e => pure (.error (.ofParse e))
          | .ok child => locateFrom blkid level child
        else pure (.error (.io s!"indirect block too small for index {index}"))

/-- The pointer of data block `blkid`; none where the path runs through a hole or beyond
the pointers of the dnode. -/
def locate (blkid : Nat) : m (Except ReadError (Option BlkPtr)) :=
  match obj.dnode.nlevels with
  | 0 => pure (.ok none)
  | level + 1 =>
    let topShift := min (obj.epbs * level) (2 ^ 32 - 1)
    let topIndex := if topShift ≥ 64 then 0 else shr64 blkid topShift
    match obj.dnode.blkptr[topIndex]? with
    | none => pure (.ok none)
    | some bp => obj.locateFrom blkid level bp

/-- The bytes of data block `blkid`, zeros for a hole, and the byte order it was written in. -/
def readBlkidExt (blkid : Nat) : m (Except ReadError (List UInt8 × Endian)) := do
  match ← obj.locate blkid with
  | .error e => pure (.error e)
  | .ok none => pure (.ok (List.replicate obj.dnode.datablksz 0, obj.endian))
  | .ok (some bp) => do
    match ← obj.reader.readBlock bp with
    | .error e => pure (.error e)
    | .ok block => pure (.ok (setLen block.data obj.dnode.datablksz, bp.endian))

def readBlkid (blkid : Nat) : m (Except ReadError (List UInt8)) :=
  Except.map Prod.fst <$> obj.readBlkidExt blkid

omit [Monad m] in
/-- Bytes this object logically spans. -/
def logicalSize : Nat := mul64 (add64 obj.dnode.maxblkid 1) obj.dnode.datablksz

end ObjectReader

/-- The dnode array of an objset, by the object that holds it. -/
structure DnodeArray (m : Type → Type) where
  meta_ : ObjectReader m

namespace DnodeArray

variable {m : Type → Type} (a : DnodeArray m)

/-- Dnode slots in a data block of the array. -/
def slotsPerBlock : Nat := a.meta_.dnode.datablksz / dnodeSize

/-- Highest object number that can exist in the array. -/
def maxObject : Nat := mul64 (add64 a.meta_.dnode.maxblkid 1) a.slotsPerBlock

/-- The pool reader behind the array. -/
def reader : PoolReader m := a.meta_.reader

/-- The byte order its dnodes were written in. -/
def endian : Endian := a.meta_.endian

variable [Monad m]

/-- The dnode of an object; that of a free slot is free. -/
def get (objnum : Nat) : m (Except ReadError DnodePhys) :=
  let per := a.slotsPerBlock
  if per = 0 then pure (.error (.io "meta-dnode has zero data block size"))
  else do
    match ← a.meta_.readBlkid (objnum / per) with
    | .error e => pure (.error e)
    | .ok block =>
      pure ((DnodePhys.parse (block.drop (objnum % per * dnodeSize)) a.endian).mapError .ofParse)

def object (objnum : Nat) : m (Except ReadError (ObjectReader m)) := do
  let dnode ← a.get objnum
  pure (dnode.map (fun dnode => { reader := a.reader, dnode, endian := a.endian }))

end DnodeArray

end Dmu
end ZvolRescue
