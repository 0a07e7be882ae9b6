import ZvolRescue.Ondisk.Dnode

/-!
# Directories and datasets

A directory of datasets and a dataset each lie in the bonus buffer of a dnode.
-/

namespace ZvolRescue
namespace Ondisk

/-- The bytes of a directory that are read. -/
def dslDirMinLen : Nat := 128

/-- The bytes of a dataset that are read. -/
def dslDatasetMinLen : Nat := 320

structure DslDirPhys where
  /-- The live dataset; none for a directory of bookkeeping. -/
  headDatasetObj : Nat
  parentObj : Nat
  /-- The snapshot that this is a clone of. -/
  originObj : Nat
  /-- The map of child directories. -/
  childDirZapobj : Nat
  propsZapobj : Nat
  deriving DecidableEq, Repr

def DslDirPhys.parse (bonus : List UInt8) (endian : Endian) : Except ParseError DslDirPhys :=
  if bonus.length < dslDirMinLen then .error (.truncated dslDirMinLen bonus.length)
  else
    let w := fun i => ((endian.u64At bonus (i * 8)).getD 0).toNat
    .ok
      { headDatasetObj := w 1
        parentObj := w 2
        originObj := w 3
        childDirZapobj := w 4
        propsZapobj := w 10 }

structure DslDatasetPhys where
  /-- The directory that owns the dataset. -/
  dirObj : Nat
  prevSnapObj : Nat
  /-- None for a head dataset. -/
  nextSnapObj : Nat
  /-- The map of snapshots. -/
  snapnamesZapobj : Nat
  creationTime : Nat
  creationTxg : Nat
  referencedBytes : Nat
  /-- What stays the same when the dataset is renamed. -/
  guid : Nat
  /-- The block of the object set. -/
  bp : BlkPtr
  propsObj : Nat
  deriving DecidableEq, Repr

namespace DslDatasetPhys

def parse (bonus : List UInt8) (endian : Endian) : Except ParseError DslDatasetPhys :=
  if bonus.length < dslDatasetMinLen then .error (.truncated dslDatasetMinLen bonus.length)
  else
    let w := fun i => ((endian.u64At bonus (i * 8)).getD 0).toNat
    (BlkPtr.parse ((bonus.drop 128).take bpSize) endian).map (fun bp =>
      { dirObj := w 0
        prevSnapObj := w 1
        nextSnapObj := w 3
        snapnamesZapobj := w 4
        creationTime := w 6
        creationTxg := w 7
        referencedBytes := w 9
        guid := w 14
        bp
        propsObj := w 33 })

def isSnapshot (d : DslDatasetPhys) : Bool := d.nextSnapObj ≠ 0

end DslDatasetPhys

end Ondisk
end ZvolRescue
