import ZvolRescue.Lib.Ranked
import ZvolRescue.Ondisk.ZeroPoint
import ZvolRescue.Source.Medium

/-!
# Searching a member for uberblocks

`find` looks for the magic of an uberblock at every step of its windows, confirms what it
meets by checksum and groups the confirmations by the base they fix.  The windows are read in
chunks with a tail for the largest slot; which offsets are looked at is `mem_examined_iff`.
-/

namespace ZvolRescue
namespace Scan

open Lib Ondisk Source

/-- Read granularity of the search. -/
def chunkSize : Nat := 4 * 1024 * 1024

/-! ## What is searched -/

/-- How much of a member to search, and how finely. -/
structure Search where
  /-- Byte ranges to look in, as start and length; the head and tail if there are none. -/
  windows : List (Nat × Nat)
  stride : Nat
  /-- Sizes to assume for the vdev; the size of the member if there are none. -/
  psizeHints : List Nat
  /-- Stop once this many anchors have been confirmed, unless it is zero. -/
  maxAnchors : Nat
  surfaceScanOnDevice : Bool
  windows_lt : ∀ w ∈ windows, w.1 < word ∧ w.2 < word

namespace Search

def default : Search :=
  { windows := []
    stride := 512
    psizeHints := []
    maxAnchors := 0
    surfaceScanOnDevice := false
    windows_lt := fun _ h => absurd h List.not_mem_nil }

variable (opts : Search)

def psizeHintsFor (size : Nat) : List Nat :=
  if opts.psizeHints.isEmpty then [size] else opts.psizeHints

/-- The first and last 64 MiB unless windows are given. -/
def windowsFor (size : Nat) : List (Nat × Nat) :=
  if ¬ opts.windows.isEmpty then opts.windows
  else
    let edge := min (64 * 1024 * 1024) size
    if size ≤ 2 * edge then [(0, size)] else [(0, edge), (size - edge, edge)]

end Search

/-- The refusal a search of the surface of a block device fails with. -/
def surfaceScanRefused (dev : Medium) : Option Fault :=
  if dev.device then
    some (.permissionDenied "a block device is not searched (SPEC N-10): a surface scan is what a disk with defects survives least. Image the disk with a tool for failing media and search the image; --surface-scan-on-device overrides")
  else none

/-- One candidate zero point and the anchors that confirmed it. -/
structure ZeroPoint where
  base : Nat
  /-- In the order they were found. -/
  anchors : List Anchor

def ZeroPoint.newestTxg (z : ZeroPoint) : Nat := (z.anchors.map (fun a => a.ub.txg)).foldl max 0

/-- What a search has found so far, and the offsets it has looked at. -/
structure Found where
  /-- The anchors by base, in the order of the bases. -/
  byBase : List (Nat × List Anchor)
  total : Nat
  examined : List Nat

namespace Found

def none : Found := { byBase := [], total := 0, examined := [] }

def bases (f : Found) : List Nat := f.byBase.map Prod.fst

end Found

/-- One more anchor for its base. -/
def insertAnchor (a : Anchor) : List (Nat × List Anchor) → List (Nat × List Anchor)
  | [] => [(a.base, [a])]
  | (base, anchors) :: rest =>
    if a.base < base then (a.base, [a]) :: (base, anchors) :: rest
    else if a.base = base then (base, anchors ++ [a]) :: rest
    else (base, anchors) :: insertAnchor a rest

def Found.add (f : Found) (a : Anchor) : Found :=
  { f with byBase := insertAnchor a f.byBase, total := f.total + 1 }

/-- Most confirmations first, then the newest transaction group. -/
def ranked (byBase : List (Nat × List Anchor)) : List ZeroPoint :=
  sortByKey (fun z => (toLex (OrderDual.toDual z.anchors.length, OrderDual.toDual z.newestTxg) :
      ℕᵒᵈ ×ₗ ℕᵒᵈ))
    (byBase.map (fun e => { base := e.1, anchors := e.2 }))

def hasMagic (buf : List UInt8) : Bool := (Uberblock.order buf).isSome

/-! ## Confirming a hit -/

section Confirm

variable (h : Hashes) (buf : List UInt8) (physical size : Nat)

/-- The anchor of a hit for a known base, with the first size that tells its label. -/
def againstSizes (base : Nat) : List (Option Nat) → Option Anchor → Option Anchor
  | [], best => best
  | psize :: rest, best =>
    match confirmAgainstBase h buf physical base psize with
    | none => best
    | some a => if a.label.isSome then some a else againstSizes base rest (some a)

/-- The anchors of the first size for which the slot verifies. -/
def firstConfirmed : List (Option Nat) → List Anchor
  | [] => []
  | psize :: rest =>
    match confirmSlotAt h buf physical psize false with
    | a :: found => a :: found
    | [] =>
      match confirmSlotAt h buf physical psize true with
      | a :: found => a :: found
      | [] => firstConfirmed rest

/-- Confirm one hit, cheaply against bases already found, then in full. -/
def confirm (known psizeHints : List Nat) : List Anchor :=
  match known.findSome? (fun base =>
    againstSizes h buf physical base
      (psizeHints.map some ++ [some (size - min base size), none]) none) with
  | some a => [a]
  | none =>
    if plausibleShifts buf = [] then []
    else firstConfirmed h buf physical (none :: psizeHints.map some)

end Confirm

/-! ## The search -/

section Find

variable (h : Hashes) (dev : Medium) (opts : Search)

/-- Look at one offset. -/
def examine (physical : Nat) (buf : List UInt8) (f : Found) : Found :=
  let seen := { f with examined := f.examined ++ [physical] }
  if hasMagic buf then
    (confirm h buf physical dev.size f.bases (opts.psizeHintsFor dev.size)).foldl Found.add seen
  else seen

/-- The anchors that were asked for have been found. -/
def reached (buf : List UInt8) (f : Found) : Prop :=
  hasMagic buf ∧ opts.maxAnchors ≠ 0 ∧ f.total ≥ opts.maxAnchors

instance (buf : List UInt8) (f : Found) : Decidable (reached opts buf f) := by
  unfold reached
  infer_instance

/-- Bytes read for the chunk at `pos`. -/
def wantAt (pos : Nat) : Nat := min (chunkSize + maxSlot) (dev.size - pos)

/-- The offsets of a chunk that are looked at are those before this one. -/
def lastOf (want : Nat) : Nat := if want > maxSlot then want - maxSlot else 1

/-- Look at the offsets of a chunk from `off` on; whether that ended the search, and `none`
while it has not come to an end. -/
def scanOffsets (chunk : List UInt8) (pos end_ : Nat) :
    (fuel off : Nat) → Found → Option (Bool × Found)
  | 0, _, _ => none
  | fuel + 1, off, f =>
    if off < lastOf (wantAt dev pos) ∧ pos + off < end_ then
      let buf := chunk.drop off
      let f := examine h dev opts (pos + off) buf f
      if reached opts buf f then some (true, f)
      else scanOffsets chunk pos end_ fuel (off + opts.stride) f
    else some (false, f)

/-- Search a window from `pos` on. -/
def scanWindow (fuel end_ : Nat) : (rounds pos : Nat) → Found → Except Fault (Option (Bool × Found))
  | 0, _, _ => .ok none
  | rounds + 1, pos, f =>
    if pos < end_ then do
      let chunk ← dev.readAt pos (wantAt dev pos)
      match scanOffsets h dev opts chunk pos end_ fuel 0 f with
      | none => .ok none
      | some (true, f) => .ok (some (true, f))
      | some (false, f) => scanWindow fuel end_ rounds (pos + chunkSize) f
    else .ok (some (false, f))

def windowEnd (w : Nat × Nat) : Nat := min (add64 w.1 w.2) dev.size

def scanWindows (fuel : Nat) : List (Nat × Nat) → Found → Except Fault (Option Found)
  | [], f => .ok (some f)
  | w :: rest, f => do
    match ← scanWindow h dev opts fuel (windowEnd dev w) fuel w.1 f with
    | none => .ok none
    | some (true, f) => .ok (some f)
    | some (false, f) => scanWindows fuel rest f

/-- The search within `fuel` steps of each loop, none where it goes on after those. -/
def search (fuel : Nat) : Except Fault (Option Found) :=
  match if opts.surfaceScanOnDevice then none else surfaceScanRefused dev with
  | some refused => .error refused
  | none => scanWindows h dev opts fuel (opts.windowsFor dev.size) Found.none

def find (fuel : Nat) : Except Fault (Option (List ZeroPoint)) :=
  (search h dev opts fuel).map (fun found => found.map (fun f => ranked f.byBase))

end Find

end Scan
end ZvolRescue
