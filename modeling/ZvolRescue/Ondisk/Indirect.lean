import Mathlib.Data.List.Sort
import ZvolRescue.Lib.Word
import ZvolRescue.Ondisk.Error

/-!
# The mapping of a removed vdev

A mapping says, for ranges of the removed vdev, where on the other vdevs they went.
`Mapping.remap` cuts a read into the segments its entries give.
-/

namespace ZvolRescue
namespace Ondisk

open Lib

/-- A range of the removed vdev, and where it went. -/
structure Entry where
  src : Nat
  size : Nat
  dstVdev : Nat
  dstOffset : Nat
  deriving DecidableEq, Repr

/-- One past the last byte of the source range, at most the largest 64-bit number. -/
def Entry.end_ (e : Entry) : Nat := min (e.src + e.size) (word - 1)

/-- A piece of a read, after translation. -/
structure Segment where
  vdev : Nat
  offset : Nat
  size : Nat
  deriving DecidableEq, Repr

/-- A range that the mapping does not cover. -/
structure Unmapped where
  offset : Nat
  size : Nat
  deriving DecidableEq, Repr

def Unmapped.text (u : Unmapped) : String :=
  s!"{u.size} byte(s) at {hex u.offset} are not in the removed vdev's mapping"

/-- The entries, in the order of their sources. -/
structure Mapping where
  entries : List Entry
  sorted : entries.Pairwise (fun a b => a.src ≤ b.src)

namespace Mapping

/-- Entries already in hand, sorted by source. -/
def fromEntries (entries : List Entry) : Mapping :=
  { entries := entries.insertionSort (fun a b => a.src ≤ b.src)
    sorted := List.pairwise_insertionSort _ entries }

/-- The entry whose source range contains `offset`: the last one that starts at or before
it, if it reaches that far. -/
def entryFor (m : Mapping) (offset : Nat) : Option Entry :=
  match (m.entries.takeWhile (fun e => decide (e.src ≤ offset))).getLast? with
  | none => none
  | some e => if offset < e.end_ then some e else none

/-- The loop of `remap`; every round takes at least a byte, so `left` bounds the rounds. -/
def remapLoop (m : Mapping) : Nat → Nat → Nat → Except Unmapped (List Segment)
  | 0, _, _ => .ok []
  | fuel + 1, at_, left =>
    if left = 0 then .ok []
    else match m.entryFor at_ with
      | none => .error { offset := at_, size := left }
      | some e =>
        let within := at_ - e.src
        let take := min (e.size - within) left
        if e.dstOffset + within ≥ word then .error { offset := at_, size := left }
        else
          let segment : Segment := { vdev := e.dstVdev, offset := e.dstOffset + within, size := take }
          if at_ + take ≥ word then
            if left - take = 0 then .ok [segment]
            else .error { offset := at_, size := left - take }
          else (m.remapLoop fuel (at_ + take) (left - take)).map (segment :: ·)

/-- Where to read `size` bytes at `offset` of the removed vdev. -/
def remap (m : Mapping) (offset size : Nat) : Except Unmapped (List Segment) :=
  m.remapLoop size offset size

end Mapping

end Ondisk
end ZvolRescue
