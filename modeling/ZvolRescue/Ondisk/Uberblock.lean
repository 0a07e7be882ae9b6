import Mathlib.Algebra.Group.Nat.Defs
import ZvolRescue.Ondisk.Error
import ZvolRescue.Ondisk.Fletcher

/-!
# Uberblocks

The root pointer of a transaction group, kept in one slot of a ring in every label.
-/

namespace ZvolRescue
namespace Ondisk

namespace Uberblock

def magic : UInt64 := 0x00bab10c

/-- The smallest slot is of 1 KiB. -/
def shift : Nat := 10

/-- The largest slot is of 8 KiB. -/
def maxShift : Nat := 13

/-- Five numbers, the root pointer and five numbers more. -/
def parsedLen : Nat := 5 * 8 + 128 + 5 * 8

end Uberblock

structure Uberblock where
  endian : Endian
  version : Nat
  /-- Transaction group this uberblock commits. -/
  txg : Nat
  guidSum : Nat
  timestamp : Nat
  rootbp : List UInt8
  softwareVersion : Nat
  mmpMagic : Nat
  mmpDelay : Nat
  mmpConfig : Nat
  checkpointTxg : Nat
  deriving DecidableEq, Repr

namespace Uberblock

/-- The byte order that the magic at the start of a slot is written in. -/
def order (buf : List UInt8) : Option Endian :=
  if Endian.little.u64At buf 0 = some magic then some .little
  else if Endian.big.u64At buf 0 = some magic then some .big
  else none

def parse (buf : List UInt8) : Except ParseError Uberblock :=
  if buf.length < parsedLen then .error (.truncated parsedLen buf.length)
  else
    match order buf with
    | none => .error (.badMagic ((Endian.little.u64At buf 0).getD 0).toNat)
    | some endian =>
      let u := fun i => ((endian.u64At buf (i * 8)).getD 0).toNat
      let tail := 40 + 128
      let t := fun i => ((endian.u64At buf (tail + i * 8)).getD 0).toNat
      .ok
        { endian
          version := u 1
          txg := u 2
          guidSum := u 3
          timestamp := u 4
          rootbp := (buf.drop 40).take 128
          softwareVersion := t 0
          mmpMagic := t 1
          mmpDelay := t 2
          mmpConfig := t 3
          checkpointTxg := t 4 }

/-- The slots of a ring, in order, by what they parse to. -/
def ringSlots (ring : List UInt8) (slotShift : Nat) :
    List (Nat × Except ParseError Uberblock) :=
  let slot := 2 ^ max shift (min slotShift maxShift)
  (chunksExact slot ring.length ring).zipIdx.map (fun c => (c.2, parse c.1))

end Uberblock

end Ondisk
end ZvolRescue
