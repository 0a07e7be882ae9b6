import ZvolRescue.Lib.Attempts
import ZvolRescue.Ondisk.Geom
import ZvolRescue.Scan.Complete
import ZvolRescue.Scan.Table
import ZvolRescue.Scan.Vdev

/-!
# Scanning a member whose base is not known

The labels are looked for at the size of the device, at the size that its last sector records,
at its partitions and at the base that its uberblocks confirm, in this order.  A partition
without room for labels fails the scan where it is reached (`scan_survives_iff`).
-/

namespace ZvolRescue
namespace Scan

open Lib Ondisk Source

section Scan

variable (h : Hashes) (dev : Medium)

/-! ## GEOM metadata -/

/-- The metadata in the sector that ends at `end_`. -/
def geomMetadata (end_ : Nat) : Except Fault (Option GeomMeta) :=
  if end_ < Geom.sectorSize ∨ end_ > dev.size then .ok none
  else do
    let buf ← dev.readAt (end_ - Geom.sectorSize) Geom.sectorSize
    return Geom.parse buf

/-- The metadata in the last sector, which is not read again. -/
def lastMetadata (scan : DeviceScan) : Except Fault (Option GeomMeta) :=
  match scan.lastSector with
  | some sector => .ok (Geom.parse sector)
  | none => geomMetadata dev dev.size

/-- Size of the provider that ZFS was given. -/
def provsizeOf (g : GeomMeta) : Nat :=
  (g.innerSize.filter (· < dev.size)).getD (dev.size - Geom.sectorSize)

/-- The reading at the size that the metadata records, where it verifies more labels. -/
def shorterScan (scan : DeviceScan) (g : GeomMeta) : Option DeviceScan :=
  if provsizeOf dev g < dev.size then
    match scanDeviceRange h dev 0 (provsizeOf dev g) with
    | .ok shorter =>
      if shorter.verifiedLabels > scan.verifiedLabels then
        some (shorter.foundBy "GEOM metadata")
      else none
    | .error _ => none
  else none

/-! ## Partitions -/

/-- The reading of a partition, if its labels verify. -/
def partitionAttempt (part : Partition) : Except Fault (Option DeviceScan) :=
  if part.start = 0 ∨ part.start ≥ dev.size then .ok none
  else do
    let inner ← scanDeviceRange h dev part.start part.length
    let inner := inner.foundBy "partition table"
    if inner.configVerified then return some inner else return none

/-- The partitions in the order they are tried: those of a type of ZFS first. -/
def orderedPartitions (table : PartitionTable) : List Partition :=
  table.partitions.filter (fun p => p.zfs) ++ table.partitions.filter (fun p => ¬ p.zfs)

def tableAttempt : Except Fault (Option DeviceScan) := do
  match ← partitionTable dev with
  | none => return none
  | some table => firstSome (partitionAttempt h dev) (orderedPartitions table)

/-! ## Anchors -/

/-- One anchor more for its label. -/
def addToLabel (a : Anchor) : List LabelScan → List LabelScan
  | [] =>
    [{ index := a.label.getD 0
       offset := a.vdevOffset - uberblockRingOffset - a.slot * 2 ^ a.shift
       physChecksum := .missing
       config := none
       configError := none
       slotShift := a.shift
       uberblocks := [{ slot := a.slot, ub := a.ub, checksum := .ok }]
       invalid := []
       slots := slotsPerRing a.shift }]
  | l :: rest =>
    if l.index = a.label.getD 0 then
      { l with uberblocks := l.uberblocks ++ [{ slot := a.slot, ub := a.ub, checksum := .ok }] } ::
        rest
    else l :: addToLabel a rest

/-- A scan of the anchors alone. -/
def scanFromAnchors (zero : ZeroPoint) : DeviceScan :=
  { size := dev.size
    psize := dev.size - zero.base
    base := zero.base
    baseSource := some "uberblock checksum"
    labels := sortByKey LabelScan.index (zero.anchors.foldl (fun ls a => addToLabel a ls) [])
    bestLabel := none
    surfaceScanRefused := false
    lastSector := none }

/-- The reading at the base that the most anchors confirm. -/
def anchorScan (scan : DeviceScan) (found : List ZeroPoint) : Except Fault DeviceScan :=
  match found.head? with
  | none => .ok scan
  | some zero =>
    if zero.base ≠ 0 then do
      let shifted ← scanDeviceAt h dev zero.base
      let shifted := shifted.foundBy "uberblock checksum"
      if shifted.configVerified then return shifted else return scanFromAnchors dev zero
    else .ok (scanFromAnchors dev zero)

/-! ## The search -/

variable (surfaceScanOnDevice : Bool)

def anchorSearch : Search :=
  { Search.default with surfaceScanOnDevice := surfaceScanOnDevice }

/-- The search of the surface for anchors, unless it is refused. -/
def searchAttempt (scan : DeviceScan) : Except Fault (Option DeviceScan) :=
  if ¬ surfaceScanOnDevice ∧ (surfaceScanRefused dev).isSome then
    .ok (some { scan with surfaceScanRefused := true })
  else do
    match ← find h dev (anchorSearch surfaceScanOnDevice) (dev.size + 2) with
    | none => return none
    | some found => return some (← anchorScan h dev scan found)

/-- The scan of a member where the partition table gives `byTable`. -/
def scanWith (byTable : Except Fault (Option DeviceScan)) : Except Fault (Option DeviceScan) := do
  let scan ← scanDevice h dev
  let geom ← lastMetadata dev scan
  match geom.bind (shorterScan h dev scan) with
  | some shorter => return some shorter
  | none =>
    if scan.configVerified then return some scan
    else
      match ← byTable with
      | some inner => return some inner
      | none => searchAttempt h dev surfaceScanOnDevice scan

/-- The scan of a member; none if the search for anchors did not come to an end. -/
def scanWithRecoveredBaseOpts : Except Fault (Option DeviceScan) :=
  scanWith h dev surfaceScanOnDevice (tableAttempt h dev)

/-! ## Without the table's small partitions -/

/-- The partitions in the order they are tried. -/
def tried : List Partition := ((tableIn dev).map orderedPartitions).getD []

/-- A partition whose labels are looked for. -/
def Candidate (p : Partition) : Prop := p.start ≠ 0 ∧ p.start < dev.size

instance (p : Partition) : Decidable (Candidate dev p) := inferInstanceAs (Decidable (_ ∧ _))

/-- The scan as it is if a partition without room for labels is no candidate. -/
def scanSkipping : Except Fault (Option DeviceScan) :=
  scanWith h dev surfaceScanOnDevice
    (firstSome (partitionAttempt h dev)
      ((tried dev).filter (fun p => Candidate dev p → Room dev p.start p.length)))

end Scan

/-! ## What each step gives -/

section Steps

variable (h : Hashes) (dev : Medium)

/-- The labels of the vdev of `psize` bytes from `base` on are there, and one verifies. -/
def HoldsLabels (base psize : Nat) : Prop :=
  Room dev base psize ∧ (labelsIn h dev base psize).configVerified = true

variable {h dev}

theorem partitionAttempt_isOk {p : Partition} :
    (∃ r, partitionAttempt h dev p = .ok r) ↔ (Candidate dev p → Room dev p.start p.length) := by
  rw [partitionAttempt, Candidate]
  by_cases hskip : p.start = 0 ∨ p.start ≥ dev.size
  · rw [if_pos hskip]
    exact iff_of_true ⟨_, rfl⟩ (fun hcand => by omega)
  · rw [if_neg hskip, scanDeviceRange_eq]
    by_cases hroom : Room dev p.start p.length
    · rw [if_pos hroom, ok_bind]
      refine iff_of_true ?_ (fun _ => hroom)
      simp only
      split
      · exact ⟨_, rfl⟩
      · exact ⟨_, rfl⟩
    · rw [if_neg hroom]
      refine iff_of_false (by rintro ⟨r, hr⟩; cases hr) ?_
      exact fun hall => hroom (hall (by omega))

theorem partitionAttempt_isSome {p : Partition} :
    (∃ s, partitionAttempt h dev p = .ok (some s)) ↔
      Candidate dev p ∧ HoldsLabels h dev p.start p.length := by
  rw [partitionAttempt, Candidate, HoldsLabels]
  by_cases hskip : p.start = 0 ∨ p.start ≥ dev.size
  · rw [if_pos hskip]
    exact iff_of_false (by rintro ⟨r, hr⟩; cases hr) (by omega)
  · rw [if_neg hskip, scanDeviceRange_eq]
    have hcand : p.start ≠ 0 ∧ p.start < dev.size := by omega
    by_cases hroom : Room dev p.start p.length
    · rw [if_pos hroom, ok_bind]
      simp only
      split
      · rename_i hverified
        exact iff_of_true ⟨_, rfl⟩ ⟨hcand, hroom, hverified⟩
      · rename_i hverified
        exact iff_of_false (by rintro ⟨r, hr⟩; cases hr) (fun hall => hverified hall.2.2)
    · rw [if_neg hroom]
      exact iff_of_false (by rintro ⟨r, hr⟩; cases hr) (fun hall => hroom hall.2.1)

theorem tableAttempt_eq : tableAttempt h dev = firstSome (partitionAttempt h dev) (tried dev) := by
  rw [tableAttempt, partitionTable_eq, ok_bind, tried]
  cases tableIn dev with
  | none => rfl
  | some table => rfl

theorem anchorScan_isOk {scan : DeviceScan} {found : List ZeroPoint} :
    (∃ r, anchorScan h dev scan found = .ok r) ↔
      ∀ z, found.head? = some z → z.base ≠ 0 → Room dev z.base (dev.size - z.base) := by
  rw [anchorScan]
  cases found.head? with
  | none => exact iff_of_true ⟨_, rfl⟩ (fun z hz => by cases hz)
  | some zero =>
    simp only [Option.some.injEq, forall_eq']
    by_cases hbase : zero.base ≠ 0
    · rw [if_pos hbase, scanDeviceAt, scanDeviceRange_eq]
      by_cases hroom : Room dev zero.base (dev.size - zero.base)
      · rw [if_pos hroom, ok_bind]
        refine iff_of_true ?_ (fun _ => hroom)
        split
        · exact ⟨_, rfl⟩
        · exact ⟨_, rfl⟩
      · rw [if_neg hroom]
        exact iff_of_false (by rintro ⟨r, hr⟩; cases hr) (fun hall => hroom (hall hbase))
    · rw [if_neg hbase]
      exact iff_of_true ⟨_, rfl⟩ (fun h => absurd h hbase)

variable {surfaceScanOnDevice : Bool}

theorem refused_iff : (surfaceScanRefused dev).isSome ↔ dev.device = true := by
  rw [surfaceScanRefused]
  split
  · rename_i hdevice
    exact iff_of_true rfl hdevice
  · rename_i hdevice
    exact iff_of_false Bool.false_ne_true hdevice

theorem find_isSome (hallowed : surfaceScanOnDevice = true ∨ dev.device = false) :
    ∃ found, find h dev (anchorSearch surfaceScanOnDevice) (dev.size + 2) = .ok (some found) := by
  obtain ⟨found, hfound⟩ : ∃ found,
      search h dev (anchorSearch surfaceScanOnDevice) (dev.size + 2) = .ok (some found) :=
    search_isSome hallowed rfl (fun hzero => absurd hzero (by decide : (512 : Nat) ≠ 0))
  exact ⟨ranked found.byBase, by rw [find, hfound]; rfl⟩

/-- The surface is searched to the end, and what is found first has room. -/
theorem searchAttempt_isSome {scan : DeviceScan} :
    (∃ r, searchAttempt h dev surfaceScanOnDevice scan = .ok (some r)) ↔
      ((surfaceScanOnDevice = true ∨ dev.device = false) →
        ∀ found, find h dev (anchorSearch surfaceScanOnDevice) (dev.size + 2) = .ok (some found) →
          ∀ z, found.head? = some z → z.base ≠ 0 → Room dev z.base (dev.size - z.base)) := by
  rw [searchAttempt]
  by_cases hallowed : surfaceScanOnDevice = true ∨ dev.device = false
  · have hsearch : ¬ (¬ surfaceScanOnDevice = true ∧ (surfaceScanRefused dev).isSome) := by
      rintro ⟨hno, hrefused⟩
      rw [refused_iff] at hrefused
      rcases hallowed with hyes | himage
      · exact hno hyes
      · rw [hrefused] at himage
        cases himage
    obtain ⟨found, hfound⟩ := find_isSome (h := h) hallowed
    rw [if_neg hsearch, hfound, ok_bind]
    have hbind : (∃ r, (do return some (← anchorScan h dev scan found) :
        Except Fault (Option DeviceScan)) = .ok (some r)) ↔
          ∃ r, anchorScan h dev scan found = .ok r := by
      cases anchorScan h dev scan found with
      | error e => exact iff_of_false (by rintro ⟨r, hr⟩; cases hr) (by rintro ⟨r, hr⟩; cases hr)
      | ok r => exact iff_of_true ⟨r, rfl⟩ ⟨r, rfl⟩
    simp only [hbind, anchorScan_isOk, hallowed, true_implies, Except.ok.injEq, Option.some.injEq,
      forall_eq']
  · rw [if_pos]
    · exact iff_of_true ⟨_, rfl⟩ (fun h => absurd h hallowed)
    · rw [refused_iff]
      cases hd : dev.device with
      | false => exact absurd (Or.inr hd) hallowed
      | true => exact ⟨fun hyes => hallowed (Or.inl hyes), rfl⟩

/-! ## The last sector -/

/-- The last label of a device ends with its last sector, or that is read by itself. -/
theorem lastMetadata_eq (hsize : labelSize * labelsPerVdev ≤ dev.size) :
    lastMetadata dev (labelsIn h dev 0 dev.size) =
      .ok (Geom.parse (dev.slice (dev.size - Geom.sectorSize) Geom.sectorSize)) := by
  have hsector : Geom.sectorSize = 512 := rfl
  have hlabel : labelSize = 262144 := rfl
  have hfour : 4 * labelSize ≤ dev.size := by rwa [Nat.mul_comm]
  have hbytes : sizeFrom dev 0 dev.size = dev.size := Nat.min_self _
  have hoffsets : labelOffsets dev.size =
      some [0, labelSize, alignLabel dev.size - 2 * labelSize, alignLabel dev.size - labelSize] := by
    obtain ⟨offsets, hoffsets⟩ :=
      Option.isSome_iff_exists.mp ((labelOffsets_isSome dev.size).mpr hsize)
    rw [hoffsets]
    rw [labelOffsets] at hoffsets
    split at hoffsets
    · cases hoffsets
    · exact hoffsets.symm
  have hlast : (labelsIn h dev 0 dev.size).lastSector =
      if 0 + (alignLabel dev.size - labelSize) + labelSize = dev.size then
        some ((dev.slice (0 + (alignLabel dev.size - labelSize)) labelSize).drop
          ((dev.slice (0 + (alignLabel dev.size - labelSize)) labelSize).length - 512))
      else none := by
    rw [labelsIn, hbytes, hoffsets]
    rfl
  rw [lastMetadata, hlast]
  split
  · rename_i sector hsome
    split at hsome
    · rename_i hend
      have hstart : 0 + (alignLabel dev.size - labelSize) + (labelSize - 512) =
          dev.size - Geom.sectorSize := by omega
      have hlength : labelSize - (labelSize - 512) = Geom.sectorSize := by omega
      rw [← Option.some.inj hsome, dev.slice_length, dev.slice_drop, hstart, hlength]
    · cases hsome
  · have hread : dev.size - Geom.sectorSize + Geom.sectorSize ≤ dev.size := by omega
    rw [geomMetadata, if_neg (by omega), dev.readAt_of_le hread, ok_bind]
    rfl

variable (dev) in
/-- The size that the metadata in the last sector records, less than that of the device. -/
def geomSize : Option Nat :=
  (Geom.parse (dev.slice (dev.size - Geom.sectorSize) Geom.sectorSize)).bind (fun g =>
    if provsizeOf dev g < dev.size then some (provsizeOf dev g) else none)

theorem shorterScan_isSome {scan : DeviceScan} {g : GeomMeta} :
    (shorterScan h dev scan g).isSome ↔
      provsizeOf dev g < dev.size ∧ Room dev 0 (provsizeOf dev g) ∧
        scan.verifiedLabels < (labelsIn h dev 0 (provsizeOf dev g)).verifiedLabels := by
  rw [shorterScan, scanDeviceRange_eq]
  by_cases hsize : provsizeOf dev g < dev.size
  · by_cases hroom : Room dev 0 (provsizeOf dev g)
    · simp [hsize, hroom]
    · simp [hroom]
  · simp [hsize]

variable (h dev) in
/-- The labels verify without the partition table. -/
def Early : Prop :=
  HoldsLabels h dev 0 dev.size ∨ ∃ p ∈ geomSize dev, HoldsLabels h dev 0 p

theorem early_iff (hroom : Room dev 0 dev.size) :
    Early h dev ↔
      ((Geom.parse (dev.slice (dev.size - Geom.sectorSize) Geom.sectorSize)).bind
        (shorterScan h dev (labelsIn h dev 0 dev.size))).isSome ∨
      (labelsIn h dev 0 dev.size).configVerified = true := by
  by_cases hverified : (labelsIn h dev 0 dev.size).configVerified = true
  · exact iff_of_true (Or.inl ⟨hroom, hverified⟩) (Or.inr hverified)
  · have hzero : (labelsIn h dev 0 dev.size).verifiedLabels = 0 := by
      simpa [DeviceScan.configVerified] using hverified
    rw [Early, HoldsLabels, and_iff_right hroom, or_iff_right hverified, or_iff_left hverified,
      geomSize]
    cases Geom.parse (dev.slice (dev.size - Geom.sectorSize) Geom.sectorSize) with
    | none => simp
    | some g =>
      rw [Option.bind_some, Option.bind_some, shorterScan_isSome, hzero]
      by_cases hsize : provsizeOf dev g < dev.size
      · simp [hsize, HoldsLabels, DeviceScan.configVerified]
      · simp [hsize]

end Steps

/-! ## The scan survives -/

section Theorem

variable (h : Hashes) (dev : Medium) (surfaceScanOnDevice : Bool)

/-- The scan returns, and returns what it does without the partitions that have no room. -/
def Survives : Prop :=
  ∃ scan, scanWithRecoveredBaseOpts h dev surfaceScanOnDevice = .ok (some scan) ∧
    scanSkipping h dev surfaceScanOnDevice = .ok (some scan)

/-- There is room at every partition that is tried, up to the first whose labels verify, and, if
none does and the surface is searched, at the base that is found first. -/
structure Harmless : Prop where
  partitions : ∀ before p after, tried dev = before ++ p :: after →
    (∀ q ∈ before, ¬ (Candidate dev q ∧ HoldsLabels h dev q.start q.length)) →
      Candidate dev p → Room dev p.start p.length
  anchors : (∀ p ∈ tried dev, ¬ (Candidate dev p ∧ HoldsLabels h dev p.start p.length)) →
    (surfaceScanOnDevice = true ∨ dev.device = false) →
      ∀ found, find h dev (anchorSearch surfaceScanOnDevice) (dev.size + 2) = .ok (some found) →
        ∀ z, found.head? = some z → z.base ≠ 0 → Room dev z.base (dev.size - z.base)

variable {h dev surfaceScanOnDevice}

theorem scanWith_eq (hsize : labelSize * labelsPerVdev ≤ dev.size)
    (byTable : Except Fault (Option DeviceScan)) :
    scanWith h dev surfaceScanOnDevice byTable =
      match (Geom.parse (dev.slice (dev.size - Geom.sectorSize) Geom.sectorSize)).bind
        (shorterScan h dev (labelsIn h dev 0 dev.size)) with
      | some shorter => .ok (some shorter)
      | none =>
        if (labelsIn h dev 0 dev.size).configVerified then .ok (some (labelsIn h dev 0 dev.size))
        else
          match byTable with
          | .error e => .error e
          | .ok (some inner) => .ok (some inner)
          | .ok none => searchAttempt h dev surfaceScanOnDevice (labelsIn h dev 0 dev.size) := by
  have hroom : Room dev 0 dev.size := by rwa [Room, Nat.sub_zero, Nat.min_self]
  rw [scanWith, scanDevice, scanDeviceAt, Nat.sub_zero, scanDeviceRange_eq, if_pos hroom, ok_bind,
    lastMetadata_eq hsize, ok_bind]
  split
  · rfl
  · split
    · rfl
    · rcases byTable with e | _ | inner
      · rfl
      · rfl
      · rfl

variable (h dev surfaceScanOnDevice) in
/-- What the steps after the whole device give. -/
def afterTable (scan : DeviceScan) (byTable : Except Fault (Option DeviceScan)) :
    Except Fault (Option DeviceScan) :=
  match byTable with
  | .error e => .error e
  | .ok (some inner) => .ok (some inner)
  | .ok none => searchAttempt h dev surfaceScanOnDevice scan

/-- Leaving out what has no room changes nothing where nothing failed. -/
theorem skipped_eq {r : Option DeviceScan}
    (htable : firstSome (partitionAttempt h dev) (tried dev) = .ok r) :
    firstSome (partitionAttempt h dev)
      ((tried dev).filter (fun p => Candidate dev p → Room dev p.start p.length)) = .ok r := by
  refine firstSome_filter ?_ htable
  intro p r hr
  exact decide_eq_true (partitionAttempt_isOk.mp ⟨r, hr⟩)

/-- No partition ends the scan. -/
theorem partitions_iff :
    (∃ r, firstSome (partitionAttempt h dev) (tried dev) = .ok r) ↔
      ∀ before p after, tried dev = before ++ p :: after →
        (∀ q ∈ before, ¬ (Candidate dev q ∧ HoldsLabels h dev q.start q.length)) →
          Candidate dev p → Room dev p.start p.length := by
  simp only [firstSome_isOk_iff, partitionAttempt_isSome, partitionAttempt_isOk]

theorem late_iff {scan : DeviceScan} :
    (∃ s, afterTable h dev surfaceScanOnDevice scan
        (firstSome (partitionAttempt h dev) (tried dev)) = .ok (some s) ∧
      afterTable h dev surfaceScanOnDevice scan
        (firstSome (partitionAttempt h dev)
          ((tried dev).filter (fun p => Candidate dev p → Room dev p.start p.length))) =
            .ok (some s)) ↔
      Harmless h dev surfaceScanOnDevice := by
  cases htable : firstSome (partitionAttempt h dev) (tried dev) with
  | error e =>
    refine iff_of_false (by rintro ⟨s, hs, -⟩; cases hs) (fun hharmless => ?_)
    obtain ⟨r, hr⟩ := partitions_iff.mpr hharmless.partitions
    rw [htable] at hr
    cases hr
  | ok found =>
    have hpartitions := partitions_iff.mp ⟨found, htable⟩
    rw [skipped_eq htable]
    cases found with
    | some inner =>
      refine iff_of_true ⟨inner, rfl, rfl⟩ ⟨hpartitions, fun hnone => ?_⟩
      obtain ⟨p, hp, hattempt⟩ := mem_of_firstSome htable
      exact absurd (partitionAttempt_isSome.mp ⟨inner, hattempt⟩) (hnone p hp)
    | none =>
      have hnone : ∀ p ∈ tried dev,
          ¬ (Candidate dev p ∧ HoldsLabels h dev p.start p.length) := by
        intro p hp hholds
        obtain ⟨s, hs⟩ := partitionAttempt_isSome.mpr hholds
        rw [of_firstSome_eq_none htable p hp] at hs
        cases hs
      have hsearch : (∃ s, afterTable h dev surfaceScanOnDevice scan (.ok none) = .ok (some s) ∧
          afterTable h dev surfaceScanOnDevice scan (.ok none) = .ok (some s)) ↔
          ∃ s, searchAttempt h dev surfaceScanOnDevice scan = .ok (some s) := by
        simp only [afterTable, and_self]
      rw [hsearch, searchAttempt_isSome]
      constructor
      · exact fun hanchors => ⟨hpartitions, fun _ => hanchors⟩
      · exact fun hharmless => hharmless.anchors hnone

/-- A device with room for four labels survives its scan if and only if its labels verify
without the partition table or there is room wherever the scan looks next. -/
theorem scan_survives_iff (hsize : labelSize * labelsPerVdev ≤ dev.size) :
    Survives h dev surfaceScanOnDevice ↔
      Early h dev ∨ Harmless h dev surfaceScanOnDevice := by
  have hroom : Room dev 0 dev.size := by rwa [Room, Nat.sub_zero, Nat.min_self]
  rw [Survives, scanWithRecoveredBaseOpts, scanSkipping, scanWith_eq hsize, scanWith_eq hsize]
  generalize hgeom : (Geom.parse (dev.slice (dev.size - Geom.sectorSize) Geom.sectorSize)).bind
    (shorterScan h dev (labelsIn h dev 0 dev.size)) = shorter
  have hearly := early_iff (h := h) hroom
  rw [hgeom] at hearly
  cases shorter with
  | some scan => exact iff_of_true ⟨scan, rfl, rfl⟩ (Or.inl (hearly.mpr (Or.inl rfl)))
  | none =>
    by_cases hverified : (labelsIn h dev 0 dev.size).configVerified = true
    · simp only [if_pos hverified]
      exact iff_of_true ⟨_, rfl, rfl⟩ (Or.inl (hearly.mpr (Or.inr hverified)))
    · have hlate : ¬ Early h dev := by
        rw [hearly, not_or]
        exact ⟨Bool.false_ne_true, hverified⟩
      simp only [if_neg hverified]
      rw [or_iff_right hlate, tableAttempt_eq]
      exact late_iff

end Theorem

/-! ## Members of zeros, and a boot slice -/

section Images

variable (h : Hashes) {dev : Medium}

/-- Where no byte says how a configuration is encoded, no label verifies. -/
theorem not_holdsLabels (hbyte : ∀ i, dev.byte i ≠ 1) (base psize : Nat) :
    ¬ HoldsLabels h dev base psize := by
  rintro ⟨-, hverified⟩
  have hnone : ∀ l ∈ (labelsIn h dev base psize).labels, ¬ l.verified = true := by
    intro l hl
    obtain ⟨⟨⟨offset, label⟩, index⟩, hmem, rfl⟩ := List.mem_map.mp hl
    have hlabel : ∃ at_, label = dev.slice at_ labelSize := by
      have hraw := (List.of_mem_zip (List.fst_mem_of_mem_zipIdx hmem)).2
      obtain ⟨at_, -, rfl⟩ := List.mem_map.mp hraw
      exact ⟨_, rfl⟩
    obtain ⟨at_, rfl⟩ := hlabel
    have harea : physArea (dev.slice at_ labelSize) =
        dev.slice (at_ + vdevPhysOffset) vdevPhysSize := by
      rw [physArea, dev.slice_drop, dev.slice_take (by decide)]
    have hfirst : ((dev.slice (at_ + vdevPhysOffset) vdevPhysSize).take
        ((dev.slice (at_ + vdevPhysOffset) vdevPhysSize).length - eckSize)).getD 0 0 ≠ 1 := by
      rw [dev.slice_length, dev.slice_take (Nat.sub_le _ _), dev.slice_getD (by decide)]
      exact hbyte _
    obtain ⟨e, he⟩ := parsePacked_of_getD hfirst
    simp only [LabelScan.verified, scanLabel, harea, parseVdevPhys, he]
    simp [Except.toOption]
  rw [DeviceScan.configVerified, DeviceScan.verifiedLabels, List.countP_eq_zero.mpr hnone] at hverified
  cases hverified

/-- Where no step of the search meets a magic, nothing is found. -/
theorem find_quiet {surfaceScanOnDevice : Bool}
    (hallowed : surfaceScanOnDevice = true ∨ dev.device = false)
    (hwindow : (anchorSearch surfaceScanOnDevice).windowsFor dev.size = [(0, dev.size)])
    (hquiet : ∀ p, p % 512 = 0 → hasMagic (rest dev p) = false) {found : List ZeroPoint}
    (hfind : find h dev (anchorSearch surfaceScanOnDevice) (dev.size + 2) = .ok (some found)) :
    found = [] := by
  obtain ⟨f, hf⟩ : ∃ f, search h dev (anchorSearch surfaceScanOnDevice) (dev.size + 2) =
      .ok (some f) :=
    search_isSome hallowed rfl (fun hzero => absurd hzero (by decide : (512 : Nat) ≠ 0))
  have hempty : f.byBase = [] := by
    refine search_quiet hallowed rfl ?_ hf
    rintro p ⟨w, hw, hcovers⟩
    rw [hwindow, List.mem_singleton] at hw
    subst hw
    have hstep : (p - 0) % chunkSize % 512 = 0 := hcovers.step
    have hchunk : chunkSize = 4194304 := rfl
    rw [hchunk] at hstep
    exact hquiet p (by omega)
  rw [find, hf] at hfind
  have hranked : ranked f.byBase = found := Option.some.inj (Except.ok.inj hfind)
  rw [← hranked, hempty]
  rfl

end Images

/-- A member of 1 MiB that holds nothing. -/
def blankMember : Medium :=
  { size := 1024 * 1024, byte := fun _ => 0, device := false, size_lt := by decide }

/-- An image of 2 MiB with an MBR whose one partition is a boot slice of 64 KiB. -/
def bootSlice : Medium :=
  { size := 2 * 1024 * 1024
    byte := fun i =>
      if i = 450 then 0x83 else if i = 454 then 64 else if i = 458 then 128
      else if i = 510 then 0x55 else if i = 511 then 0xaa else 0
    device := false
    size_lt := by decide }

theorem tried_blankMember : tried blankMember = [] := by decide +kernel

theorem tried_bootSlice :
    (tried bootSlice).map (fun p => (p.start, p.length)) = [(32768, 65536)] := by
  decide +kernel

theorem bootSlice_byte (i : Nat) : bootSlice.byte i ≠ 1 := by
  simp only [bootSlice]
  split_ifs <;> decide

/-- A member that holds nothing survives its scan. -/
theorem scan_survives_blank : Survives verifierHashes blankMember false := by
  refine (scan_survives_iff (by decide)).mpr (Or.inr ⟨?_, ?_⟩)
  · intro before p after heq
    rw [tried_blankMember] at heq
    exact absurd heq (List.append_ne_nil_of_right_ne_nil _ (List.cons_ne_nil _ _)).symm
  · intro _ hallowed found hfind z hz
    rw [find_quiet verifierHashes hallowed rfl (fun p _ => hasMagic_zeros _ (fun _ _ => rfl)) hfind] at hz
    cases hz

section BootSlice

variable (h : Hashes)

theorem bootSlice_quiet {p : Nat} (hp : p % 512 = 0) : hasMagic (rest bootSlice p) = false := by
  refine hasMagic_zeros _ (fun i hi => ?_)
  simp only [bootSlice]
  rw [if_neg (by omega), if_neg (by omega), if_neg (by omega), if_neg (by omega),
    if_neg (by omega)]

theorem bootSlice_late : ¬ Early h bootSlice := by
  rintro (hholds | ⟨p, -, hholds⟩)
  · exact not_holdsLabels h bootSlice_byte _ _ hholds
  · exact not_holdsLabels h bootSlice_byte _ _ hholds

theorem bootSlice_size : labelSize * labelsPerVdev ≤ bootSlice.size := by decide

theorem scanWith_bootSlice (byTable : Except Fault (Option DeviceScan)) :
    scanWith h bootSlice false byTable =
      afterTable h bootSlice false (labelsIn h bootSlice 0 bootSlice.size) byTable := by
  have hlate := bootSlice_late h
  have hroom : Room bootSlice 0 bootSlice.size := by
    rw [Room, Nat.sub_zero, Nat.min_self]
    exact bootSlice_size
  rw [early_iff hroom, not_or] at hlate
  rw [scanWith_eq bootSlice_size]
  generalize (Geom.parse (bootSlice.slice (bootSlice.size - Geom.sectorSize)
    Geom.sectorSize)).bind (shorterScan h bootSlice (labelsIn h bootSlice 0 bootSlice.size)) =
      shorter at hlate
  cases shorter with
  | some scan => exact absurd rfl hlate.1
  | none =>
    simp only [if_neg hlate.2]
    rfl

theorem scan_bootSlice :
    scanWithRecoveredBaseOpts h bootSlice false = .error (tooSmall 65536) := by
  rw [scanWithRecoveredBaseOpts, scanWith_bootSlice, tableAttempt_eq]
  obtain ⟨p, htried, hplace⟩ := List.map_eq_singleton_iff.mp tried_bootSlice
  obtain ⟨hstart, hlength⟩ := Prod.mk.inj hplace
  have hattempt : partitionAttempt h bootSlice p = .error (tooSmall 65536) := by
    have hcandidate : ¬ (p.start = 0 ∨ p.start ≥ bootSlice.size) := by
      rw [hstart]
      decide
    have hroom : ¬ Room bootSlice 32768 65536 := by decide
    have hsize : sizeFrom bootSlice 32768 65536 = 65536 := by decide
    rw [partitionAttempt, if_neg hcandidate, hstart, hlength, scanDeviceRange_eq, if_neg hroom,
      hsize]
    rfl
  rw [htried, firstSome, hattempt]
  rfl

theorem skipping_bootSlice : ∃ scan, scanSkipping h bootSlice false = .ok (some scan) := by
  rw [scanSkipping, scanWith_bootSlice]
  have hnone : (tried bootSlice).filter
      (fun p => Candidate bootSlice p → Room bootSlice p.start p.length) = [] := by
    decide +kernel
  rw [hnone]
  refine searchAttempt_isSome.mpr ?_
  intro hallowed found hfind z hz
  rw [find_quiet h hallowed rfl (fun p hp => bootSlice_quiet hp) hfind] at hz
  cases hz

end BootSlice

/-- A boot slice in the partition table fails the scan, which goes on without it. -/
theorem boot_slice_fails :
    scanWithRecoveredBaseOpts verifierHashes bootSlice false = .error (tooSmall 65536) ∧
      ∃ scan, scanSkipping verifierHashes bootSlice false = .ok (some scan) :=
  ⟨scan_bootSlice _, skipping_bootSlice _⟩

end Scan
end ZvolRescue
