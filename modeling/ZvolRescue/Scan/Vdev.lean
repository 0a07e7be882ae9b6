import ZvolRescue.Ondisk.Nvlist
import ZvolRescue.Ondisk.ZeroPoint
import ZvolRescue.Source.Medium

/-!
# Reading the labels of a vdev

`scanDeviceRange` reads the four labels of a vdev that begins at a byte of a device and is so
many bytes long.  On a device that reads without error it fails where there is no room for
four labels and nowhere else (`scanDeviceRange_eq`).
-/

namespace ZvolRescue
namespace Scan

open Lib Ondisk Source

/-! ## The configuration of a label -/

structure VdevPhys where
  /-- What the packed list parses to, whatever the checksum says. -/
  config : Except ParseError NvList
  checksum : ChecksumStatus

/-- The configuration of the label at this offset of its vdev. -/
def parseVdevPhys (h : Hashes) (buf : List UInt8) (labelOffset : Nat) : VdevPhys :=
  { config := parsePacked (buf.take (buf.length - eckSize))
    checksum :=
      if buf.length = vdevPhysSize then verifyLabel h buf (labelOffset + vdevPhysOffset)
      else .missing }

/-- The `ashift` of the vdev that a label describes. -/
def ashiftOf (config : NvList) : Option Nat :=
  match config.list "vdev_tree" with
  | some tree => tree.u64 "ashift"
  | none => none

/-- Slot size of the ring of a vdev, by its `ashift`. -/
def slotShiftFor (ashift : Option Nat) : Nat :=
  match ashift with
  | some a => if a < 2 ^ 32 then clampShift a else clampShift Uberblock.shift
  | none => clampShift Uberblock.shift

/-! ## Labels -/

structure UberblockSlot where
  slot : Nat
  ub : Uberblock
  checksum : ChecksumStatus
  deriving DecidableEq, Repr

structure LabelScan where
  index : Nat
  offset : Nat
  physChecksum : ChecksumStatus
  config : Option NvList
  configError : Option ParseError
  slotShift : Nat
  uberblocks : List UberblockSlot
  /-- The slots that hold no uberblock. -/
  invalid : List (Nat × ParseError)
  slots : Nat

namespace LabelScan

/-- A configuration whose checksum verified where it was read. -/
def verified (l : LabelScan) : Bool := l.config.isSome ∧ l.physChecksum = .ok

def txg (l : LabelScan) : Nat :=
  match l.config with
  | some config => (config.u64 "txg").getD 0
  | none => 0

end LabelScan

structure DeviceScan where
  size : Nat
  /-- Bytes of the device that the vdev takes from `base` on. -/
  psize : Nat
  base : Nat
  /-- How the base was arrived at, unless the labels were where they should be. -/
  baseSource : Option String
  labels : List LabelScan
  bestLabel : Option Nat
  surfaceScanRefused : Bool
  /-- The last sector of the device, where the last label ends with it. -/
  lastSector : Option (List UInt8)

namespace DeviceScan

def verifiedLabels (s : DeviceScan) : Nat := s.labels.countP LabelScan.verified

def configVerified (s : DeviceScan) : Bool := s.verifiedLabels > 0

def foundBy (s : DeviceScan) (source : String) : DeviceScan := { s with baseSource := some source }

@[simp] theorem configVerified_foundBy (s : DeviceScan) (source : String) :
    (s.foundBy source).configVerified = s.configVerified := rfl

end DeviceScan

/-- The last of the elements with the largest key. -/
def lastMaxBy {α : Type} (key : α → Nat) : List α → Option α
  | [] => none
  | a :: l =>
    match lastMaxBy key l with
    | none => some a
    | some b => if key b ≥ key a then some b else some a

/-- The label to trust: the newest that verified, else the newest that parsed. -/
def pickBestLabel (labels : List LabelScan) : Option Nat :=
  let numbered := labels.zipIdx
  let best := fun l : List (LabelScan × Nat) => (lastMaxBy (fun p => p.1.txg) l).map Prod.snd
  (best (numbered.filter (fun p => p.1.verified))).or
    (best (numbered.filter (fun p => p.1.config.isSome)))

/-! ## A vdev -/

section Vdev

variable (h : Hashes)

def physArea (label : List UInt8) : List UInt8 := (label.drop vdevPhysOffset).take vdevPhysSize

/-- One label, by its bytes. -/
def scanLabel (vdevAshift : Option Nat) (index offset : Nat) (label : List UInt8) : LabelScan :=
  let phys := parseVdevPhys h (physArea label) offset
  let ashift := (phys.config.toOption.bind ashiftOf).or vdevAshift
  let slotShift := slotShiftFor ashift
  let size := 2 ^ slotShift
  let ring := (label.drop uberblockRingOffset).take uberblockRingSize
  let parsed := Uberblock.ringSlots ring slotShift
  { index
    offset
    physChecksum := phys.checksum
    config := phys.config.toOption
    configError :=
      match phys.config with
      | .ok _ => none
      | .error e => some e
    slotShift
    uberblocks := parsed.filterMap (fun s =>
      match s.2 with
      | .ok ub =>
        some
          { slot := s.1
            ub
            checksum := verifyLabel h ((ring.drop (s.1 * size)).take size)
              (offset + uberblockRingOffset + s.1 * size) }
      | .error _ => none)
    invalid := parsed.filterMap (fun s =>
      match s.2 with
      | .ok _ => none
      | .error e => some (s.1, e))
    slots := parsed.length }

/-- What the labels at these offsets say, by their bytes. -/
def scanLabels (dev : Medium) (base psize : Nat) (offsets : List Nat) (raw : List (List UInt8)) :
    DeviceScan :=
  let placed := offsets.zip raw
  let vdevAshift := placed.findSome? (fun l =>
    (parseVdevPhys h (physArea l.2) l.1).config.toOption.bind ashiftOf)
  let labels := placed.zipIdx.map (fun l => scanLabel h vdevAshift l.2 l.1.1 l.1.2)
  { size := dev.size
    psize
    base
    baseSource := none
    labels
    bestLabel := pickBestLabel labels
    surfaceScanRefused := false
    lastSector :=
      match placed.getLast? with
      | some (offset, label) =>
        if base + offset + labelSize = dev.size then some (label.drop (label.length - 512)) else none
      | none => none }

/-- The refusal of a vdev without room for its labels. -/
def tooSmall (psize : Nat) : Fault :=
  .invalidData s!"device is {psize} bytes, smaller than {labelsPerVdev} labels of {labelSize} bytes"

/-- The labels at these offsets, one after the other. -/
def readLabels (dev : Medium) (base : Nat) : List Nat → Except Fault (List (List UInt8))
  | [] => .ok []
  | offset :: rest => do
    let label ← dev.readAt (base + offset) labelSize
    let labels ← readLabels dev base rest
    return label :: labels

/-- The labels of the vdev that takes `psize` bytes from `base` on. -/
def scanDeviceRange (dev : Medium) (base psize : Nat) : Except Fault DeviceScan :=
  let psize := min psize (dev.size - base)
  match labelOffsets psize with
  | none => .error (tooSmall psize)
  | some offsets => do
    let raw ← readLabels dev base offsets
    return scanLabels h dev base psize offsets raw

def scanDeviceAt (dev : Medium) (base : Nat) : Except Fault DeviceScan :=
  scanDeviceRange h dev base (dev.size - base)

def scanDevice (dev : Medium) : Except Fault DeviceScan := scanDeviceAt h dev 0

end Vdev

/-! ## What is read -/

section Read

variable (h : Hashes) (dev : Medium)

theorem readLabels_eq {base : Nat} {offsets : List Nat}
    (hin : ∀ offset ∈ offsets, base + offset + labelSize ≤ dev.size) :
    readLabels dev base offsets =
      .ok (offsets.map (fun offset => dev.slice (base + offset) labelSize)) := by
  induction offsets with
  | nil => rfl
  | cons offset rest ih =>
    obtain ⟨hfirst, hrest⟩ := List.forall_mem_cons.mp hin
    rw [readLabels, dev.readAt_of_le hfirst, ok_bind, ih hrest, ok_bind]
    rfl

/-- The vdev of `psize` bytes from `base` on has room for its labels on the device. -/
def Room (base psize : Nat) : Prop := labelSize * labelsPerVdev ≤ min psize (dev.size - base)

instance (base psize : Nat) : Decidable (Room dev base psize) :=
  inferInstanceAs (Decidable (_ ≤ _))

/-- The bytes of the vdev on the device. -/
def sizeFrom (base psize : Nat) : Nat := min psize (dev.size - base)

/-- The labels without the reads, which do not fail. -/
def labelsIn (base psize : Nat) : DeviceScan :=
  let offsets := (labelOffsets (sizeFrom dev base psize)).getD []
  scanLabels h dev base (sizeFrom dev base psize) offsets
    (offsets.map (fun offset => dev.slice (base + offset) labelSize))

-- stated of the function itself, so that its branches are compared as they stand and the size of a
-- label is not counted up to
theorem scanDeviceRange_fun : @scanDeviceRange = fun h dev base psize =>
    match labelOffsets (min psize (dev.size - base)) with
    | none => .error (tooSmall (min psize (dev.size - base)))
    | some offsets => do
      let raw ← readLabels dev base offsets
      return scanLabels h dev base (min psize (dev.size - base)) offsets raw := rfl

/-- A device that reads without error is refused where it has no room and nowhere else. -/
theorem scanDeviceRange_eq (base psize : Nat) :
    scanDeviceRange h dev base psize =
      if Room dev base psize then .ok (labelsIn h dev base psize)
      else .error (tooSmall (sizeFrom dev base psize)) := by
  have hroom : Room dev base psize ↔ (labelOffsets (sizeFrom dev base psize)).isSome :=
    (labelOffsets_isSome _).symm
  have hsize : min psize (dev.size - base) = sizeFrom dev base psize := rfl
  rw [scanDeviceRange_fun, labelsIn]
  beta_reduce
  rw [hsize]
  cases hoffsets : labelOffsets (sizeFrom dev base psize) with
  | none =>
    rw [hoffsets] at hroom
    rw [if_neg (fun hin => by cases hroom.mp hin)]
  | some offsets =>
    have hin : ∀ offset ∈ offsets, base + offset + labelSize ≤ dev.size := by
      intro offset hoffset
      have hle := labelOffsets_le hoffsets hoffset
      have hsize : sizeFrom dev base psize ≤ dev.size - base := Nat.min_le_right _ _
      have hlabel : 0 < labelSize := by decide
      omega
    rw [hoffsets] at hroom
    rw [if_pos (hroom.mpr rfl)]
    simp only [readLabels_eq dev hin, ok_bind, Option.getD_some]
    rfl

end Read

end Scan
end ZvolRescue
