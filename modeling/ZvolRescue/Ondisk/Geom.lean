import ZvolRescue.Ondisk.Nvlist
import ZvolRescue.Ondisk.Part

/-!
# GEOM metadata in the last sector of a provider

A class that keeps state on a disk keeps it in the last sector of its provider, and offers one
that is a sector shorter.
-/

namespace ZvolRescue
namespace Ondisk

namespace Geom

/-- The record of any class fits this. -/
def sectorSize : Nat := 512

end Geom

/-- What the last sector of a provider says. -/
structure GeomMeta where
  /-- As its device directory is named. -/
  cls : String
  name : Option String
  /-- Size of the provider the class was configured on, this sector included. -/
  provsize : Option Nat
  version : Nat
  deriving DecidableEq, Repr

namespace GeomMeta

/-- Size of the provider that the class offers. -/
def innerSize (g : GeomMeta) : Option Nat := g.provsize.map (· - Geom.sectorSize)

end GeomMeta

namespace Geom

/-- Magic to class. -/
def classes : List (String × String) :=
  [("GEOM::LABEL", "label"), ("GEOM::MIRROR", "mirror"), ("GEOM::ELI", "eli"),
    ("GEOM::STRIPE", "stripe"), ("GEOM::CONCAT", "concat"), ("GEOM::RAID3", "raid3"),
    ("GEOM::RAID", "raid"), ("GEOM::JOURNAL", "journal"), ("GEOM::CACHE", "cache"),
    ("GEOM::VIRSTOR", "virstor"), ("GEOM::SHSEC", "shsec")]

/-- The bytes of a text in ASCII. -/
def asciiBytes (s : String) : List UInt8 := s.toList.map (fun c => UInt8.ofNat c.toNat)

/-- The name at an offset, up to its first zero. -/
def nameAt (sector : List UInt8) (from_ : Nat) : Option String :=
  if from_ + 16 ≤ sector.length then
    match fromUtf8 (((sector.drop from_).take 16).takeWhile (· ≠ 0)) with
    | none => none
    | some name => if name.isEmpty then none else some name
  else none

def sizeAt (sector : List UInt8) (at_ : Nat) : Option Nat :=
  if at_ + 8 ≤ sector.length then some (u64le sector at_) else none

/-- The classes that name their providers but do not record a size. -/
def namedOnly : List String :=
  ["stripe", "concat", "raid3", "journal", "cache", "virstor", "shsec"]

def parse (sector : List UInt8) : Option GeomMeta :=
  if sector.length < 36 then none
  else
    let field := sector.take 16
    if 0 ∉ field then none
    else
      let word := field.takeWhile (· ≠ 0)
      match classes.find? (fun c => asciiBytes c.1 = word) with
      | none => none
      | some (_, cls) =>
        let version := u32le sector 16
        let fields : Option String × Option Nat :=
          if cls = "label" then
            (nameAt sector 20, if version ≥ 2 then sizeAt sector 36 else none)
          else if cls = "mirror" then
            (nameAt sector 20, if version ≥ 3 then sizeAt sector 111 else none)
          else if cls ∈ namedOnly then (nameAt sector 20, none)
          else (none, none)
        some { cls, name := fields.1, provsize := fields.2, version }

end Geom
end Ondisk
end ZvolRescue
