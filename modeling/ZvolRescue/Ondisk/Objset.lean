import ZvolRescue.Ondisk.Dnode

/-!
# Object sets

The header of an object set begins with its meta-dnode.  How many of the accounting dnodes
after it are there depends on how many bytes the header was written with.
-/

namespace ZvolRescue
namespace Ondisk

inductive ObjsetType where
  | none
  | meta_
  | zfs
  | zvol
  | other
  | unknown (raw : Nat)
  deriving DecidableEq, Repr

def ObjsetType.fromRaw (v : Nat) : ObjsetType :=
  if v = 0 then .none
  else if v = 1 then .meta_
  else if v = 2 then .zfs
  else if v = 3 then .zvol
  else if v = 4 then .other
  else .unknown v

def ObjsetType.name : ObjsetType → String
  | none => "none"
  | meta_ => "meta"
  | zfs => "filesystem"
  | zvol => "volume"
  | other => "other"
  | unknown v => s!"unknown-{v}"

/-- The smallest header. -/
def objsetHeaderSize : Nat := 1024

structure ObjsetPhys where
  /-- The dnode whose data is the dnode array. -/
  metaDnode : DnodePhys
  zilLog : BlkPtr
  zilClaimTxg : Nat
  osType : ObjsetType
  flags : Nat
  userusedDnode : Option DnodePhys
  groupusedDnode : Option DnodePhys
  projectusedDnode : Option DnodePhys
  deriving DecidableEq, Repr

namespace ObjsetPhys

/-- The dnode at an offset of the header, where the buffer reaches that far. -/
def dnodeAt (buf : List UInt8) (endian : Endian) (at_ : Nat) :
    Except ParseError (Option DnodePhys) :=
  if at_ + dnodeSize ≤ buf.length then
    (DnodePhys.parse ((buf.drop at_).take dnodeSize) endian).map some
  else .ok none

def parse (buf : List UInt8) (endian : Endian) : Except ParseError ObjsetPhys :=
  if buf.length < objsetHeaderSize then .error (.truncated objsetHeaderSize buf.length)
  else do
    let metaDnode ← DnodePhys.parse (buf.take dnodeSize) endian
    let zilLog ← BlkPtr.parse ((buf.drop 528).take bpSize) endian
    let userusedDnode ← dnodeAt buf endian 1024
    let groupusedDnode ← dnodeAt buf endian 1536
    let projectusedDnode ← dnodeAt buf endian 2048
    pure
      { metaDnode, zilLog
        zilClaimTxg := ((endian.u64At buf 512).getD 0).toNat
        osType := ObjsetType.fromRaw ((endian.u64At buf 704).getD 0).toNat
        flags := ((endian.u64At buf 712).getD 0).toNat
        userusedDnode, groupusedDnode, projectusedDnode }

end ObjsetPhys

end Ondisk
end ZvolRescue
