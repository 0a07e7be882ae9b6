import ZvolRescue.Dmu.Object
import ZvolRescue.Ondisk.Zap

/-!
# Reading maps of names

A ZAP object is a microzap, or the header of a fatzap, its table and every leaf the table names.
-/

namespace ZvolRescue
namespace Dmu

open Lib Ondisk Zio

/-- Most leaf blocks that are read of one ZAP. -/
def maxLeaves : Nat := 2 ^ 20

def tooManyLeaves : ReadError := .io "ZAP pointer table names too many leaves"

section

variable {m : Type → Type} [Monad m] (obj : ObjectReader m)

/-- The leaves that `left` blocks of a table from block `blk` on name, and those before. -/
def tableLeaves : (left blk : Nat) → List Nat → m (Except ReadError (List Nat))
  | 0, _, leaves => pure (.ok leaves)
  | left + 1, blk, leaves => do
    match ← obj.readBlkidExt blk with
    | .error e => pure (.error e)
    | .ok (table, endian) =>
      let leaves := (leaves ++ Zap.ptrtblBlock table endian).dedup
      if leaves.length > maxLeaves then pure (.error tooManyLeaves)
      else tableLeaves left (blk + 1) leaves

/-- The entries of the leaves, in this order; a block that is no leaf is skipped. -/
def leafEntries : List Nat → m (Except ReadError (List Zap.Entry))
  | [] => pure (.ok [])
  | blkid :: rest => do
    match ← obj.readBlkidExt blkid with
    | .error e => pure (.error e)
    | .ok (leaf, endian) =>
      if Zap.blockType leaf endian = some .leaf then
        match Zap.parseLeaf leaf endian with
        | .error e => pure (.error (.ofParse e))
        | .ok entries => Except.map (entries ++ ·) <$> leafEntries rest
      else leafEntries rest

/-- The leaves of a fatzap, each once, in the order of their blocks. -/
def fatLeaves (block0 : List UInt8) (endian : Endian) (hdr : Zap.FatHeader) :
    m (Except ReadError (List Nat)) := do
  let named ←
    if hdr.ptrtblNumblks = 0 then pure (.ok (Zap.embeddedPtrtbl block0 endian))
    else
      let last := min (hdr.ptrtblBlk + hdr.ptrtblNumblks) (word - 1)
      tableLeaves obj (last - hdr.ptrtblBlk) hdr.ptrtblBlk []
  match named with
  | .error e => pure (.error e)
  | .ok named =>
    let leaves := ((named.filter (fun blkid => blkid ≠ 0)).dedup).mergeSort (· ≤ ·)
    pure (if leaves.length > maxLeaves then .error tooManyLeaves else .ok leaves)

/-- Every entry of a ZAP object, in on-disk order. -/
def readZap : m (Except ReadError (List Zap.Entry)) := do
  match ← obj.readBlkidExt 0 with
  | .error e => pure (.error e)
  | .ok (block0, endian) =>
    match Zap.blockType block0 endian with
    | some .micro => pure ((Zap.parseMicro block0 endian).mapError .ofParse)
    | some .header =>
      match Zap.parseFatHeader block0 endian with
      | .error e => pure (.error (.ofParse e))
      | .ok hdr => do
        match ← fatLeaves obj block0 endian hdr with
        | .error e => pure (.error e)
        | .ok leaves => leafEntries obj leaves
    | some .leaf => pure (.error (.io "ZAP object starts with a leaf block"))
    | none => pure (.error (.io "object is not a ZAP"))

end

/-- Every entry of the ZAP that is an object of the array. -/
def DnodeArray.zap {m : Type → Type} [Monad m] (a : DnodeArray m) (objnum : Nat) :
    m (Except ReadError (List Zap.Entry)) := do
  match ← a.object objnum with
  | .error e => pure (.error e)
  | .ok obj => readZap obj

end Dmu
end ZvolRescue
