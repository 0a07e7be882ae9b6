import ZvolRescue.Ondisk.Checksum
import ZvolRescue.Ondisk.Label
import ZvolRescue.Ondisk.Uberblock

/-!
# What an uberblock slot proves about its vdev

A slot is sealed with its offset on the vdev, so one that verifies for an offset says where
the vdev begins.  Which slot it is and how long, only its first 8 KiB tell
(`confirmSlotAt_take`).
-/

namespace ZvolRescue
namespace Ondisk

/-- A zero point confirmed by an uberblock checksum. -/
structure Anchor where
  /-- Where the slot lies on the device. -/
  physical : Nat
  base : Nat
  /-- The offset on the vdev that the checksum verified for. -/
  vdevOffset : Nat
  label : Option Nat
  slot : Nat
  shift : Nat
  ub : Uberblock
  deriving DecidableEq, Repr

/-- The checksum of what was stored at this offset of its vdev. -/
def verifyLabel (h : Hashes) (buf : List UInt8) (vdevOffset : Nat) : ChecksumStatus :=
  verifyEmbedded h buf { w0 := UInt64.ofNat vdevOffset, w1 := 0, w2 := 0, w3 := 0 } false

/-! ## Slots -/

def clampShift (shift : Nat) : Nat := max Uberblock.shift (min shift Uberblock.maxShift)

def slotsPerRing (shift : Nat) : Nat := uberblockRingSize / 2 ^ clampShift shift

/-- Where a slot of the ring of a label lies on the vdev; the rear labels need its size. -/
def slotOffset (label slot shift : Nat) (psize : Option Nat) : Option Nat :=
  let shift := clampShift shift
  if label ≥ 4 ∨ slot ≥ slotsPerRing shift then none
  else
    let labelStart : Option Nat :=
      if label < 2 then some (label * labelSize)
      else
        match psize with
        | none => none
        | some psize =>
          let aligned := alignLabel psize
          if aligned < 4 * labelSize then none else some (aligned - (4 - label) * labelSize)
    labelStart.map (fun start => start + uberblockRingOffset + slot * 2 ^ shift)

/-- Where the uberblock of `txg` can lie, by label and slot. -/
def slotOffsets (txg shift : Nat) (psize : Option Nat) : List (Nat × Nat × Nat) :=
  let slot := txg % slotsPerRing shift
  (List.range 4).filterMap (fun label =>
    (slotOffset label slot shift psize).map (fun off => (label, slot, off)))

/-- Every slot of every label. -/
def allOffsets (shift : Nat) (psize : Option Nat) : List (Nat × Nat × Nat) :=
  (List.range 4).flatMap (fun label =>
    (List.range (slotsPerRing shift)).filterMap (fun slot =>
      (slotOffset label slot shift psize).map (fun off => (label, slot, off))))

/-- The magic of an embedded checksum stands at the end of a slot of this size. -/
def plausibleShift (buf : List UInt8) (shift : Nat) : Bool :=
  let size := 2 ^ shift
  if buf.length < size then false
  else
    let at_ := size - eckSize
    Endian.little.u64At buf at_ = some zecMagic ∨ Endian.big.u64At buf at_ = some zecMagic

def plausibleShifts (buf : List UInt8) : List Nat :=
  [10, 11, 12, 13].filter (plausibleShift buf)

/-! ## Confirming -/

/-- The anchors of a slot of this size that starts at `physical`. -/
def anchorsOf (h : Hashes) (buf : List UInt8) (physical : Nat) (ub : Uberblock) (shift : Nat)
    (candidates : List (Nat × Nat × Nat)) : List Anchor :=
  candidates.filterMap (fun c =>
    if c.2.2 > physical then none
    else if verifyLabel h (buf.take (2 ^ shift)) c.2.2 ≠ .ok then none
    else some
      { physical
        base := physical - c.2.2
        vdevOffset := c.2.2
        label := some c.1
        slot := c.2.1
        shift
        ub })

/-- The anchors of the slot that `buf` starts with; all slots are tried if `thorough`, else
the one that the transaction group implies. -/
def confirmSlotAt (h : Hashes) (buf : List UInt8) (physical : Nat) (psize : Option Nat)
    (thorough : Bool) : List Anchor :=
  match Uberblock.parse buf with
  | .error _ => []
  | .ok ub =>
    (plausibleShifts buf).flatMap (fun shift =>
      anchorsOf h buf physical ub shift
        (if thorough then allOffsets shift psize else slotOffsets ub.txg shift psize))

/-- The anchor of a slot for a base that is known. -/
def confirmAgainstBase (h : Hashes) (buf : List UInt8) (physical base : Nat)
    (psize : Option Nat) : Option Anchor :=
  match Uberblock.parse buf with
  | .error _ => none
  | .ok ub =>
    if physical < base then none
    else
      let vdevOffset := physical - base
      (plausibleShifts buf).findSome? (fun shift =>
        if verifyLabel h (buf.take (2 ^ shift)) vdevOffset ≠ .ok then none
        else
          let ringRelative := vdevOffset % labelSize
          if ringRelative < uberblockRingOffset then none
          else
            let slot := (ringRelative - uberblockRingOffset) / 2 ^ shift
            some
              { physical
                base
                vdevOffset
                label := (List.range 4).find? (fun l =>
                  slotOffset l slot shift psize = some vdevOffset)
                slot
                shift
                ub })

/-- Some slot that `buf` starts with verifies for the vdev that begins at `base`. -/
def Verifies (h : Hashes) (buf : List UInt8) (physical base : Nat) : Prop :=
  base ≤ physical ∧ ∃ shift ∈ plausibleShifts buf,
    verifyLabel h (buf.take (2 ^ shift)) (physical - base) = .ok

section Confirmed

variable {h : Hashes} {buf : List UInt8} {physical : Nat}

theorem verifies_of_mem {psize : Option Nat} {thorough : Bool} {a : Anchor}
    (ha : a ∈ confirmSlotAt h buf physical psize thorough) :
    Verifies h buf physical a.base ∧ ∃ ub, Uberblock.parse buf = .ok ub := by
  rw [confirmSlotAt] at ha
  split at ha
  · cases ha
  · rename_i ub hub
    obtain ⟨shift, hshift, hmem⟩ := List.mem_flatMap.mp ha
    obtain ⟨c, -, hc⟩ := List.mem_filterMap.mp hmem
    split at hc
    · cases hc
    · rename_i hle
      split at hc
      · cases hc
      · rename_i hok
        cases hc
        refine ⟨⟨Nat.sub_le _ _, shift, hshift, ?_⟩, ub, hub⟩
        rw [Nat.sub_sub_self (by omega)]
        exact not_not.mp hok

theorem verifies_of_known {base : Nat} {psize : Option Nat} {a : Anchor}
    (ha : confirmAgainstBase h buf physical base psize = some a) :
    a.base = base ∧ Verifies h buf physical base := by
  rw [confirmAgainstBase] at ha
  split at ha
  · cases ha
  · split at ha
    · cases ha
    · rename_i hle
      obtain ⟨shift, hshift, hsome⟩ := List.exists_of_findSome?_eq_some ha
      split at hsome
      · cases hsome
      · rename_i hok
        simp only at hsome
        split at hsome
        · cases hsome
        · cases hsome
          exact ⟨rfl, by omega, shift, hshift, not_not.mp hok⟩

end Confirmed

/-! ## The first 8 KiB -/

/-- The largest slot. -/
def maxSlot : Nat := 2 ^ Uberblock.maxShift

theorem length_take_lt {buf : List UInt8} {n m : Nat} (hm : m ≤ n) :
    (buf.take n).length < m ↔ buf.length < m := by
  rw [List.length_take]
  omega

theorem parse_take {buf : List UInt8} {n : Nat} (hn : Uberblock.parsedLen ≤ n)
    (hlength : n ≤ buf.length) : Uberblock.parse (buf.take n) = Uberblock.parse buf := by
  have hlen : Uberblock.parsedLen = 208 := rfl
  have hshort : ¬ (buf.take n).length < Uberblock.parsedLen := by
    rw [length_take_lt hn]
    omega
  have hword : ∀ (e : Endian) off, off ≤ 200 → e.u64At (buf.take n) off = e.u64At buf off :=
    fun e off hoff => u64At_take e (by omega) hlength
  have horder : Uberblock.order (buf.take n) = Uberblock.order buf := by
    rw [Uberblock.order, Uberblock.order, hword _ _ (by omega), hword _ _ (by omega)]
  have hroot : ((buf.take n).drop 40).take 128 = (buf.drop 40).take 128 := by
    rw [List.drop_take, List.take_take, Nat.min_eq_left (by omega)]
  rw [Uberblock.parse, Uberblock.parse, if_neg hshort, if_neg (by omega), horder, hroot,
    hword _ _ (by omega)]
  cases Uberblock.order buf with
  | none => rfl
  | some e => simp (disch := decide) only [hword]

theorem plausibleShift_take {buf : List UInt8} {n shift : Nat} (hshift : 2 ^ shift ≤ n)
    (heck : eckSize ≤ 2 ^ shift) (hlength : n ≤ buf.length) :
    plausibleShift (buf.take n) shift = plausibleShift buf shift := by
  have hsize : eckSize = 40 := rfl
  have hword : ∀ e : Endian, e.u64At (buf.take n) (2 ^ shift - eckSize) =
      e.u64At buf (2 ^ shift - eckSize) := fun e => u64At_take e (by omega) hlength
  simp only [plausibleShift, length_take_lt hshift, hword]

theorem mem_shifts {shift : Nat} (h : shift ∈ [10, 11, 12, 13]) :
    2 ^ shift ≤ maxSlot ∧ eckSize ≤ 2 ^ shift := by
  revert h shift
  decide

theorem plausibleShifts_take {buf : List UInt8} (hlength : maxSlot ≤ buf.length) :
    plausibleShifts (buf.take maxSlot) = plausibleShifts buf := by
  apply List.filter_congr
  intro shift hshift
  obtain ⟨hle, heck⟩ := mem_shifts hshift
  exact plausibleShift_take hle heck hlength

theorem take_slot {buf : List UInt8} {shift : Nat} (h : shift ∈ plausibleShifts buf) :
    (buf.take maxSlot).take (2 ^ shift) = buf.take (2 ^ shift) := by
  rw [List.take_take, Nat.min_eq_left (mem_shifts (List.mem_filter.mp h).1).1]

theorem findSome?_congr {α β : Type} {f g : α → Option β} {l : List α} (h : ∀ a ∈ l, f a = g a) :
    l.findSome? f = l.findSome? g := by
  induction l with
  | nil => rfl
  | cons a l ih =>
    rw [List.findSome?_cons, List.findSome?_cons, h a List.mem_cons_self,
      ih (fun b hb => h b (List.mem_cons_of_mem _ hb))]

variable (h : Hashes) (buf : List UInt8) (physical : Nat)

theorem confirmSlotAt_take (psize : Option Nat) (thorough : Bool) :
    confirmSlotAt h (buf.take maxSlot) physical psize thorough =
      confirmSlotAt h buf physical psize thorough := by
  by_cases hlength : buf.length ≤ maxSlot
  · rw [List.take_of_length_le hlength]
  · rw [confirmSlotAt, confirmSlotAt, parse_take (by decide) (by omega),
      plausibleShifts_take (by omega)]
    cases Uberblock.parse buf with
    | error e => rfl
    | ok ub =>
      apply List.flatMap_congr
      intro shift hshift
      simp only [anchorsOf, take_slot hshift]

theorem confirmAgainstBase_take (base : Nat) (psize : Option Nat) :
    confirmAgainstBase h (buf.take maxSlot) physical base psize =
      confirmAgainstBase h buf physical base psize := by
  by_cases hlength : buf.length ≤ maxSlot
  · rw [List.take_of_length_le hlength]
  · rw [confirmAgainstBase, confirmAgainstBase, parse_take (by decide) (by omega),
      plausibleShifts_take (by omega)]
    cases Uberblock.parse buf with
    | error e => rfl
    | ok ub =>
      by_cases hbase : physical < base
      · simp only [if_pos hbase]
      · simp only [if_neg hbase]
        apply findSome?_congr
        intro shift hshift
        simp only [take_slot hshift]

end Ondisk
end ZvolRescue
