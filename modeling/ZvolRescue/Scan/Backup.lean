import ZvolRescue.Scan.Table

/-!
# The backup of a GUID partition table

A standard table keeps a second header in the last sector and a second array of entries where
that header says.  `partitionTable` looks for the array 32 KiB before the last sector, so the
backup gives what the primary gave on every disk of exactly those layouts that keep it there.
-/

namespace ZvolRescue
namespace Scan

open Lib Ondisk Source

/-! ## Standard tables -/

/-- Where a standard table keeps its headers and its entries. -/
structure Layout where
  sector : Nat
  /-- Sectors of the disk. -/
  sectors : Nat
  count : Nat
  entrySize : Nat
  /-- The sector at which the backup header says its entries begin. -/
  backupLba : Nat
  sector_eq : sector = 512 ∨ sector = 4096
  count_pos : 0 < count
  count_le : count ≤ 4096
  entrySize_le : 128 ≤ entrySize
  entrySize_lt : entrySize < 2 ^ 32
  after : sector * 2 + count * entrySize ≤ backupLba * sector
  before : backupLba * sector + count * entrySize ≤ (sectors - 1) * sector
  size_lt : sectors * sector < 2 ^ 63

namespace Layout

variable (l : Layout)

/-- The first byte of the last sector. -/
def last : Nat := (l.sectors - 1) * l.sector

/-- The first byte of the entries of the backup. -/
def array : Nat := l.backupLba * l.sector

structure HeaderAt (d : Medium) (at_ lba : Nat) : Prop where
  signature : d.slice at_ 8 = gptSignature
  lba : u64le (d.slice at_ l.sector) 72 = lba
  count : u32le (d.slice at_ l.sector) 80 = l.count
  size : u32le (d.slice at_ l.sector) 84 = l.entrySize

/-- The disk carries a standard table of this layout. -/
structure Carries (d : Medium) : Prop where
  size : d.size = l.sectors * l.sector
  primary : l.HeaderAt d l.sector 2
  backup : l.HeaderAt d l.last l.backupLba
  entries : ∀ i, i < l.count * l.entrySize → d.byte (l.sector * 2 + i) = d.byte (l.array + i)
  /-- With sectors of 4096 bytes nothing but reserved bytes lies where headers of disks with
  smaller sectors would. -/
  reserved : l.sector = 4096 →
    d.slice 512 8 ≠ gptSignature ∧ d.slice (d.size - 512) 8 ≠ gptSignature

/-- `d'` is the disk `d` after its primary header was destroyed. -/
structure Destroyed (d d' : Medium) : Prop where
  size : d'.size = d.size
  same : ∀ i, i < l.sector ∨ l.sector * 2 ≤ i → d'.byte i = d.byte i
  header : d'.slice l.sector 8 ≠ gptSignature

theorem sector_le : 512 ≤ l.sector := by
  rcases l.sector_eq with h | h <;> omega

theorem sectors_pos : 0 < l.count * l.entrySize :=
  Nat.mul_pos l.count_pos (by have := l.entrySize_le; omega)

theorem array_le : l.sector * 2 + l.count * l.entrySize ≤ l.array := l.after

theorem last_le : l.array + l.count * l.entrySize ≤ l.last := l.before

theorem last_add : l.last + l.sector = l.sectors * l.sector := by
  have hlast := l.last_le
  have hpos := l.sectors_pos
  unfold last at hlast ⊢
  cases hsectors : l.sectors with
  | zero =>
    rw [hsectors, Nat.zero_sub, Nat.zero_mul] at hlast
    omega
  | succ n => rw [Nat.succ_sub_one, Nat.succ_mul]

end Layout

/-- Index, start and length of every partition. -/
def PartitionBounds (t : PartitionTable) : List (Nat × Nat × Nat) :=
  t.partitions.map (fun p => (p.index, p.start, p.length))

/-- The two disks give a table each, and the same partitions. -/
def Agree (d d' : Medium) : Prop :=
  ∃ t t', partitionTable d = .ok (some t) ∧ partitionTable d' = .ok (some t') ∧
    PartitionBounds t' = PartitionBounds t

/-! ## Headers -/

theorem parseGpt_of_signature {d : Medium} {at_ n : Nat} (hn : 8 ≤ n)
    (h : d.slice at_ 8 ≠ gptSignature) (entries : List UInt8) (sector : Nat) (backup : Bool) :
    parseGpt (d.slice at_ n) entries sector backup = none := by
  rw [parseGpt, if_pos (Or.inr (by rwa [d.slice_take hn]))]

theorem gptIn_of_signature {d : Medium} {sector : Nat} (hsector : 8 ≤ sector)
    (hprimary : d.slice sector 8 ≠ gptSignature)
    (hbackup : d.slice (d.size - sector) 8 ≠ gptSignature) : gptIn d sector = none := by
  unfold gptIn
  simp only [parseGpt_of_signature hsector hprimary, parseGpt_of_signature hsector hbackup]
  split
  · rfl
  · split <;> rfl

namespace Layout

variable {l : Layout} {d d' : Medium}

theorem HeaderAt.parseGpt {at_ lba : Nat} (h : l.HeaderAt d at_ lba) (entries : List UInt8)
    (backup : Bool) :
    Ondisk.parseGpt (d.slice at_ l.sector) entries l.sector backup = some
      { scheme := if backup then "gpt-backup" else "gpt"
        sector := l.sector
        partitions := entriesFrom entries l.sector l.entrySize l.count 0 } := by
  have hsector := l.sector_le
  have hsig : (d.slice at_ l.sector).take 8 = gptSignature := by
    rw [d.slice_take (by omega), h.signature]
  have hlength : ¬ ((d.slice at_ l.sector).length < 92 ∨
      (d.slice at_ l.sector).take 8 ≠ gptSignature) := by
    rw [d.slice_length, hsig]
    rintro (h | h)
    · omega
    · exact h rfl
  have hbounds : ¬ (l.entrySize < 128 ∨ l.count = 0 ∨ l.count > 4096) := by
    have h1 := l.entrySize_le
    have h2 := l.count_pos
    have h3 := l.count_le
    omega
  rw [Ondisk.parseGpt, if_neg hlength, h.count, h.size]
  simp only [if_neg hbounds]

theorem tableIn_of_gptIn (hreserved : l.sector = 4096 → gptIn d 512 = none) {t : PartitionTable}
    (h : gptIn d l.sector = some t) : tableIn d = some t := by
  rcases l.sector_eq with hsector | hsector
  · rw [hsector] at h
    rw [tableIn, h, Option.some_or, Option.some_or]
  · rw [hsector] at h
    rw [tableIn, hreserved hsector, Option.none_or, h, Option.some_or]

theorem Carries.size_sub (h : l.Carries d) : d.size - l.sector = l.last := by
  have hlast := l.last_add
  rw [h.size]
  omega

theorem Carries.large (h : l.Carries d) : ¬ d.size < l.sector * 3 := by
  have h1 := l.array_le
  have h2 := l.last_le
  have h3 := l.last_add
  rw [h.size]
  omega

/-- What is read from the primary. -/
theorem Carries.tableIn (h : l.Carries d) :
    Scan.tableIn d = some
      { scheme := "gpt"
        sector := l.sector
        partitions := entriesFrom
          (d.slice (l.sector * 2) (min arrayRoom (d.size - l.sector * 2))) l.sector l.entrySize
          l.count 0 } := by
  apply tableIn_of_gptIn
  · intro hsector
    obtain ⟨h512, hend⟩ := h.reserved hsector
    exact gptIn_of_signature (by omega) h512 hend
  · unfold gptIn
    rw [if_neg h.large, h.primary.parseGpt]
    rfl

theorem Destroyed.slice_eq (h : l.Destroyed d d') {at_ n : Nat}
    (hat : at_ + n ≤ l.sector ∨ l.sector * 2 ≤ at_) : d'.slice at_ n = d.slice at_ n := by
  apply Medium.slice_congr
  intro i hi
  exact h.same _ (by omega)

theorem Destroyed.backup (h : l.Destroyed d d') (hd : l.Carries d) :
    l.HeaderAt d' l.last l.backupLba := by
  have hlast : l.sector * 2 ≤ l.last := by
    have h1 := l.array_le
    have h2 := l.last_le
    omega
  have h8 := h.slice_eq (Or.inr hlast) (n := 8)
  have hsector := h.slice_eq (Or.inr hlast) (n := l.sector)
  exact
    { signature := by rw [h8, hd.backup.signature]
      lba := by rw [hsector, hd.backup.lba]
      count := by rw [hsector, hd.backup.count]
      size := by rw [hsector, hd.backup.size] }

/-- The entries of the backup as they are read. -/
def backupTable (l : Layout) (d : Medium) : PartitionTable :=
  { scheme := "gpt-backup"
    sector := l.sector
    partitions := entriesFrom (d.slice (l.last - arrayRoom) arrayRoom) l.sector l.entrySize
      l.count 0 }

theorem Destroyed.reserved (h : l.Destroyed d d') (hd : l.Carries d) (hsector : l.sector = 4096) :
    gptIn d' 512 = none := by
  obtain ⟨h512, hend⟩ := hd.reserved hsector
  have hlarge := hd.large
  rw [← h.slice_eq (Or.inl (by omega))] at h512
  rw [← h.slice_eq (Or.inr (by omega)), ← h.size] at hend
  exact gptIn_of_signature (by omega) h512 hend

/-- Without the primary, the backup is read where there is room before it. -/
theorem Destroyed.gptIn (h : l.Destroyed d d') (hd : l.Carries d) :
    Scan.gptIn d' l.sector =
      if l.last - arrayRoom > l.sector then some (l.backupTable d') else none := by
  have hsector := l.sector_le
  have hlarge := hd.large
  unfold Scan.gptIn
  rw [if_neg (by rwa [h.size]), parseGpt_of_signature (by omega) h.header, h.size, hd.size_sub]
  simp only [(h.backup hd).parseGpt]
  rfl

/-! ## The array 32 KiB before the last sector -/

/-- Where the entries of the primary lie at the place looked at, both are read whole and
alike. -/
theorem agree_of_entries {x : Nat} (hx : x + arrayRoom = l.last) (hafter : l.sector * 2 ≤ x)
    (hroom : l.count * l.entrySize ≤ arrayRoom) (hd : l.Carries d) (h : l.Destroyed d d')
    (hentries : ∀ i, i < l.count * l.entrySize → d'.byte (x + i) = d.byte (l.sector * 2 + i)) :
    Agree d d' := by
  have hadd := l.last_add
  have hsector := l.sector_le
  have hplace : l.last - arrayRoom = x := by omega
  have hbackup : Scan.gptIn d' l.sector = some (l.backupTable d') := by
    rw [h.gptIn hd, if_pos (by omega)]
  have hprimary := hd.tableIn
  have htable := tableIn_of_gptIn (h.reserved hd) hbackup
  refine ⟨_, _, (partitionTable_eq d).trans (congrArg _ hprimary),
    (partitionTable_eq d').trans (congrArg _ htable), ?_⟩
  have hwant : l.count * l.entrySize ≤ min arrayRoom (d.size - l.sector * 2) := by
    rw [hd.size]
    omega
  have heq : entriesFrom (d'.slice x arrayRoom) l.sector l.entrySize l.count 0 =
      entriesFrom (d.slice (l.sector * 2) (min arrayRoom (d.size - l.sector * 2))) l.sector
        l.entrySize l.count 0 := by
    apply entriesFrom_congr l.sector l.entrySize_le (n := l.count * l.entrySize)
    · rw [d'.slice_length]
      exact hroom
    · rw [d.slice_length]
      exact hwant
    · rw [d'.slice_take hroom, d.slice_take hwant]
      exact Medium.slice_congr hentries
    · rw [Nat.zero_add]
  simp only [PartitionBounds, backupTable, hplace, heq]

/-- The backup gives the partitions of the primary where its array begins 32 KiB before the
last sector, and where that is the place of the primary's own array. -/
theorem agree_of_place (h : l.array + arrayRoom = l.last ∨ l.sector * 2 + arrayRoom = l.last)
    (hd : l.Carries d) (hd' : l.Destroyed d d') : Agree d d' := by
  have hafter := l.array_le
  have hbefore := l.last_le
  rcases h with hplace | hplace
  · refine agree_of_entries hplace (by omega) (by omega) hd hd' ?_
    intro i hi
    rw [hd.entries i hi]
    exact hd'.same _ (by omega)
  · refine agree_of_entries hplace (Nat.le_refl _) (by omega) hd hd' ?_
    intro i hi
    exact hd'.same _ (by omega)

/-! ## A disk with one partition -/

/-- The bytes of a header that says its entries begin at `lba`. -/
def headerByte (l : Layout) (lba j : Nat) : UInt8 :=
  if j < 8 then gptSignature.getD j 0
  else if 72 ≤ j ∧ j < 80 then leByte lba (j - 72)
  else if 80 ≤ j ∧ j < 84 then leByte l.count (j - 80)
  else if 84 ≤ j ∧ j < 88 then leByte l.entrySize (j - 84)
  else 0

/-- The bytes of an entry for a partition of one sector. -/
def entryByte (lba j : Nat) : UInt8 :=
  if j < 32 then 1
  else if j < 40 then leByte lba (j - 32)
  else if j < 48 then leByte lba (j - 40)
  else 0

/-- A disk whose first entry is the sector before the array of the backup; all other entries
are unused. -/
def specimen (l : Layout) (intact : Bool) : Medium where
  size := l.sectors * l.sector
  byte i :=
    if l.last ≤ i then headerByte l l.backupLba (i - l.last)
    else if l.array ≤ i then entryByte (l.backupLba - 1) (i - l.array)
    else if l.sector * 2 ≤ i then entryByte (l.backupLba - 1) (i - l.sector * 2)
    else if l.sector ≤ i ∧ intact then headerByte l 2 (i - l.sector)
    else 0
  device := false
  size_lt := l.size_lt

variable (l)

theorem specimen_last (intact : Bool) (j : Nat) :
    (l.specimen intact).byte (l.last + j) = headerByte l l.backupLba j := by
  have hle : l.last ≤ l.last + j := Nat.le_add_right _ _
  show (if l.last ≤ l.last + j then _ else _) = _
  rw [if_pos hle, Nat.add_sub_cancel_left]

theorem specimen_array (intact : Bool) {j : Nat} (h : j < l.count * l.entrySize) :
    (l.specimen intact).byte (l.array + j) = entryByte (l.backupLba - 1) j := by
  have hlast := l.last_le
  show (if l.last ≤ l.array + j then _ else if l.array ≤ l.array + j then _ else _) = _
  rw [if_neg (by omega), if_pos (by omega), Nat.add_sub_cancel_left]

theorem specimen_entries (intact : Bool) {j : Nat} (h : j < l.count * l.entrySize) :
    (l.specimen intact).byte (l.sector * 2 + j) = entryByte (l.backupLba - 1) j := by
  have hlast := l.last_le
  have harray := l.array_le
  show (if l.last ≤ l.sector * 2 + j then _ else if l.array ≤ l.sector * 2 + j then _
    else if l.sector * 2 ≤ l.sector * 2 + j then _ else _) = _
  rw [if_neg (by omega), if_neg (by omega), if_pos (by omega), Nat.add_sub_cancel_left]

theorem specimen_primary (intact : Bool) {j : Nat} (h : j < l.sector) :
    (l.specimen intact).byte (l.sector + j) = if intact then headerByte l 2 j else 0 := by
  have hlast := l.last_le
  have harray := l.array_le
  show (if l.last ≤ l.sector + j then _ else if l.array ≤ l.sector + j then _
    else if l.sector * 2 ≤ l.sector + j then _
    else if l.sector ≤ l.sector + j ∧ intact = true then _ else _) = _
  rw [if_neg (by omega), if_neg (by omega), if_neg (by omega), Nat.add_sub_cancel_left]
  cases intact with
  | true => rw [if_pos ⟨by omega, rfl⟩, if_pos rfl]
  | false => rw [if_neg (fun h => Bool.false_ne_true h.2), if_neg Bool.false_ne_true]

theorem specimen_before (intact : Bool) {i : Nat} (h : i < l.sector) :
    (l.specimen intact).byte i = 0 := by
  have hlast := l.last_le
  have harray := l.array_le
  show (if l.last ≤ i then _ else if l.array ≤ i then _ else if l.sector * 2 ≤ i then _
    else if l.sector ≤ i ∧ intact = true then _ else (0 : UInt8)) = 0
  rw [if_neg (by omega), if_neg (by omega), if_neg (by omega), if_neg (by omega)]

theorem backupLba_lt : l.backupLba * l.sector < word := by
  have hlast := l.last_le
  have hadd := l.last_add
  have hsize := l.size_lt
  have hword : (2 : Nat) ^ 63 < word := by decide
  show l.array < word
  omega

theorem lba_lt : l.backupLba < 256 ^ 8 :=
  Nat.lt_of_le_of_lt (Nat.le_mul_of_pos_right _ (by have := l.sector_le; omega)) l.backupLba_lt

/-- A header is read back. -/
theorem headerAt_of_bytes {at_ lba : Nat} (hlba : lba < 256 ^ 8)
    (h : ∀ j, j < l.sector → d.byte (at_ + j) = headerByte l lba j) : l.HeaderAt d at_ lba := by
  have hsector := l.sector_le
  have hget : ∀ j, j < 512 → (d.slice at_ l.sector).getD j 0 = headerByte l lba j := by
    intro j hj
    rw [d.slice_getD (by omega), h j (by omega)]
  refine ⟨?_, ?_, ?_, ?_⟩
  · apply List.ext_getElem?
    intro i
    rw [d.slice_getElem?]
    by_cases hi : i < 8
    · have hlength : i < gptSignature.length := hi
      rw [if_pos hi, h i (by omega), headerByte, if_pos hi, List.getD_eq_getElem?_getD,
        List.getElem?_eq_getElem hlength]
      rfl
    · rw [if_neg hi, List.getElem?_eq_none (by simpa [gptSignature] using hi)]
  · refine leAt_of_leByte 8 lba 72 (fun k hk => ?_) hlba
    rw [hget _ (by omega), headerByte, if_neg (by omega), if_pos (by omega),
      Nat.add_sub_cancel_left]
  · have hcount := l.count_le
    refine leAt_of_leByte 4 l.count 80 (fun k hk => ?_) (by omega)
    rw [hget _ (by omega), headerByte, if_neg (by omega), if_neg (by omega), if_pos (by omega),
      Nat.add_sub_cancel_left]
  · have hsize := l.entrySize_lt
    refine leAt_of_leByte 4 l.entrySize 84 (fun k hk => ?_) (by omega)
    rw [hget _ (by omega), headerByte, if_neg (by omega), if_neg (by omega), if_neg (by omega),
      if_pos (by omega), Nat.add_sub_cancel_left]

/-- Where a sector of the specimen could begin with a header, none does but the two. -/
theorem specimen_signature (intact : Bool) {pos : Nat} (hpos : pos % 512 = 0)
    (hlast : pos ≠ l.last) (hprimary : pos = l.sector → intact = false) :
    (l.specimen intact).slice pos 8 ≠ gptSignature := by
  intro h
  have hfirst : (l.specimen intact).byte pos = 0x45 := by
    have h0 : ((l.specimen intact).slice pos 8).getD 0 0 = gptSignature.getD 0 0 := by rw [h]
    rw [Medium.slice_getD _ (by decide)] at h0
    exact h0
  have hdvd : ∀ n, n * l.sector % 512 = 0 := by
    intro n
    rcases l.sector_eq with hsector | hsector <;> rw [hsector] <;> omega
  have hsector := l.sector_le
  have h1 : l.last % 512 = 0 := hdvd _
  have h2 : l.array % 512 = 0 := hdvd _
  have h3 : l.sector % 512 = 0 := by simpa using hdvd 1
  have hafter := l.array_le
  have hbefore := l.last_le
  have hentry : ∀ j, j % 512 = 0 → entryByte (l.backupLba - 1) j ≠ 0x45 := by
    intro j hj
    unfold entryByte
    by_cases hj0 : j < 32
    · rw [if_pos hj0]
      decide
    · rw [if_neg hj0, if_neg (by omega), if_neg (by omega)]
      decide
  have hheader : ∀ lba j, j % 512 = 0 → j ≠ 0 → headerByte l lba j ≠ 0x45 := by
    intro lba j hj hj0
    unfold headerByte
    rw [if_neg (by omega), if_neg (by omega), if_neg (by omega), if_neg (by omega)]
    decide
  have hbyte : (l.specimen intact).byte pos =
      if l.last ≤ pos then headerByte l l.backupLba (pos - l.last)
      else if l.array ≤ pos then entryByte (l.backupLba - 1) (pos - l.array)
      else if l.sector * 2 ≤ pos then entryByte (l.backupLba - 1) (pos - l.sector * 2)
      else if l.sector ≤ pos ∧ intact then headerByte l 2 (pos - l.sector)
      else 0 := rfl
  rw [hbyte] at hfirst
  split at hfirst
  · exact hheader _ _ (by omega) (by omega) hfirst
  · split at hfirst
    · exact hentry _ (by omega) hfirst
    · split at hfirst
      · exact hentry _ (by omega) hfirst
      · split at hfirst
        · rename_i hin
          have hne : pos ≠ l.sector := by
            intro heq
            rw [hprimary heq] at hin
            exact Bool.false_ne_true hin.2
          exact hheader _ _ (by omega) (by omega) hfirst
        · revert hfirst
          decide

theorem specimen_carries : l.Carries (l.specimen true) := by
  have hsector := l.sector_le
  have hadd := l.last_add
  refine ⟨rfl, ?_, ?_, ?_, ?_⟩
  · apply l.headerAt_of_bytes (by decide)
    intro j hj
    exact l.specimen_primary true hj
  · apply l.headerAt_of_bytes l.lba_lt
    intro j _
    exact l.specimen_last true j
  · intro i hi
    rw [l.specimen_entries true hi, l.specimen_array true hi]
  · intro hlarge
    have hafter := l.array_le
    have hbefore := l.last_le
    have hsize : (l.specimen true).size = l.last + 4096 := by
      show l.sectors * l.sector = _
      omega
    have h1 : l.last % 512 = 0 := by
      unfold last
      rw [hlarge]
      omega
    refine ⟨l.specimen_signature true (by omega) (by omega) (by omega), ?_⟩
    rw [hsize]
    exact l.specimen_signature true (by omega) (by omega) (by omega)

theorem specimen_after (intact : Bool) {i : Nat} (h : l.sector * 2 ≤ i) :
    (l.specimen intact).byte i =
      if l.last ≤ i then headerByte l l.backupLba (i - l.last)
      else if l.array ≤ i then entryByte (l.backupLba - 1) (i - l.array)
      else entryByte (l.backupLba - 1) (i - l.sector * 2) := by
  show (if l.last ≤ i then _ else if l.array ≤ i then _ else if l.sector * 2 ≤ i then _ else _) = _
  rw [if_pos h]

theorem specimen_destroyed : l.Destroyed (l.specimen true) (l.specimen false) := by
  have hlast : l.sector ≠ l.last := by
    have hafter := l.array_le
    have hbefore := l.last_le
    have hsector := l.sector_le
    omega
  have hmod : l.sector % 512 = 0 := by
    rcases l.sector_eq with h | h <;> rw [h]
  refine ⟨rfl, ?_, l.specimen_signature false hmod hlast (fun _ => rfl)⟩
  rintro i (hi | hi)
  · rw [l.specimen_before false hi, l.specimen_before true hi]
  · rw [l.specimen_after false hi, l.specimen_after true hi]

/-- The primary has the partition of the first entry. -/
theorem specimen_first {t : PartitionTable} (h : tableIn (l.specimen true) = some t) :
    1 ∈ t.partitions.map Partition.index := by
  have hafter := l.array_le
  have hbefore := l.last_le
  have hadd := l.last_add
  have hsector := l.sector_le
  have hsize := l.entrySize_le
  have hlba := l.backupLba_lt
  have hentry : l.entrySize ≤ l.count * l.entrySize := Nat.le_mul_of_pos_left _ l.count_pos
  rw [l.specimen_carries.tableIn] at h
  cases h
  have hwant : 128 ≤ min arrayRoom ((l.specimen true).size - l.sector * 2) := by
    show 128 ≤ min arrayRoom (l.sectors * l.sector - l.sector * 2)
    have hroom : 128 ≤ arrayRoom := by decide
    omega
  generalize min arrayRoom ((l.specimen true).size - l.sector * 2) = want at hwant
  have hlength : 128 ≤ ((l.specimen true).slice (l.sector * 2) want).length := by
    rw [Medium.slice_length]
    exact hwant
  have hget : ∀ j, j < 48 →
      (entryBytes ((l.specimen true).slice (l.sector * 2) want) l.entrySize 0).getD j 0 =
        entryByte (l.backupLba - 1) j := by
    intro j hj
    rw [entryBytes_getD (by omega) hsize hlength, Medium.slice_getD _ (by omega),
      l.specimen_entries true (by omega)]
  apply entriesFrom_first l.count_pos hlength
  generalize entryBytes _ l.entrySize 0 = e at hget
  have hlt : l.backupLba - 1 < 256 ^ 8 := Nat.lt_of_le_of_lt (Nat.sub_le _ _) l.lba_lt
  have hfirst : u64le e 32 = l.backupLba - 1 := by
    refine leAt_of_leByte 8 _ 32 (fun k hk => ?_) hlt
    rw [hget _ (by omega), entryByte, if_neg (by omega), if_pos (by omega), Nat.add_sub_cancel_left]
  have hlast : u64le e 40 = l.backupLba - 1 := by
    refine leAt_of_leByte 8 _ 40 (fun k hk => ?_) hlt
    rw [hget _ (by omega), entryByte, if_neg (by omega), if_neg (by omega), if_pos (by omega),
      Nat.add_sub_cancel_left]
  have hstart : (l.backupLba - 1) * l.sector < word :=
    Nat.lt_of_le_of_lt (Nat.mul_le_mul_right _ (Nat.sub_le _ _)) hlba
  have hsmall : l.sector < word := by
    have hsize := l.size_lt
    have hword : (2 : Nat) ^ 63 < word := by decide
    omega
  apply parseEntry_isSome
  · rw [hget 0 (by omega), entryByte, if_pos (by decide)]
    decide
  · rw [hfirst, hlast]
  · rwa [hfirst]
  · rwa [hfirst, hlast, Nat.sub_self, Nat.zero_add, Nat.one_mul]
  · omega

/-- Wherever else the array is looked for, its first entry is unused. -/
theorem specimen_unused (harray : l.array + arrayRoom ≠ l.last)
    (hprimary : l.sector * 2 + arrayRoom ≠ l.last) (hroom : l.last - arrayRoom > l.sector) :
    1 ∉ (l.backupTable (l.specimen false)).partitions.map Partition.index := by
  intro h
  obtain ⟨p, hp, hindex⟩ := List.mem_map.mp h
  have hsome := first_of_entriesFrom hp hindex
  rw [parseEntry_unused] at hsome
  · cases hsome
  intro j hj
  have hwhole : 128 ≤ ((l.specimen false).slice (l.last - arrayRoom) arrayRoom).length := by
    rw [Medium.slice_length]
    decide
  have hin : j < arrayRoom := Nat.lt_trans hj (by decide)
  rw [entryBytes_getD (by omega) l.entrySize_le hwhole, Medium.slice_getD _ hin]
  have hzero : ∀ k, 48 ≤ k → entryByte (l.backupLba - 1) k = 0 := by
    intro k hk
    rw [entryByte, if_neg (by omega), if_neg (by omega), if_neg (by omega)]
  have hunit : arrayRoom = 32768 := rfl
  have hdvd : ∀ n, n * l.sector % 512 = 0 ∧ (l.sector = 4096 → n * l.sector % 4096 = 0) := by
    intro n
    rcases l.sector_eq with hsector | hsector <;> rw [hsector] <;> omega
  have hlast := hdvd (l.sectors - 1)
  have harr : l.array % 512 = 0 := (hdvd _).1
  change l.last % 512 = 0 ∧ (l.sector = 4096 → l.last % 4096 = 0) at hlast
  have hsector := l.sector_eq
  rw [l.specimen_after false (by omega), if_neg (by omega)]
  split
  · exact hzero _ (by omega)
  · exact hzero _ (by omega)

theorem specimen_mbr : mbrIn (l.specimen false) = none := by
  have hzero : ((l.specimen false).slice 0 512).getD 510 0 ≠ 0x55 := by
    have hsector := l.sector_le
    rw [Medium.slice_getD _ (by decide), l.specimen_before false (by omega)]
    decide
  have hparse : ∀ sector, parseMbr ((l.specimen false).slice 0 512) sector = none := by
    intro sector
    rw [parseMbr, if_pos (Or.inr (Or.inl hzero))]
  rw [mbrIn, hparse, hparse]
  split <;> rfl

/-- With sectors of 512 bytes, nothing lies where the headers of larger ones would. -/
theorem specimen_large (h : l.sector = 512) : gptIn (l.specimen false) 4096 = none := by
  have hadd := l.last_add
  have hsize : (l.specimen false).size = l.last + 512 := by
    show l.sectors * l.sector = _
    omega
  have hmod : l.last % 512 = 0 := by
    unfold last
    rw [h]
    omega
  by_cases hsmall : (l.specimen false).size < 4096 * 3
  · rw [gptIn, if_pos hsmall]
  · apply gptIn_of_signature (by decide)
    · exact l.specimen_signature false (by decide) (by omega) (fun _ => rfl)
    · rw [hsize]
      exact l.specimen_signature false (by omega) (by omega) (fun _ => rfl)

theorem not_agree_specimen (harray : l.array + arrayRoom ≠ l.last)
    (hprimary : l.sector * 2 + arrayRoom ≠ l.last) :
    ¬ Agree (l.specimen true) (l.specimen false) := by
  rintro ⟨t, t', ht, ht', hbounds⟩
  rw [partitionTable_eq] at ht ht'
  have hfirst := l.specimen_first (Except.ok.inj ht)
  have hindices : t'.partitions.map Partition.index = t.partitions.map Partition.index := by
    have hmap := congrArg (List.map Prod.fst) hbounds
    simpa [PartitionBounds, Function.comp_def] using hmap
  rw [← hindices] at hfirst
  have hgpt := l.specimen_destroyed.gptIn l.specimen_carries
  have hreserved := l.specimen_destroyed.reserved l.specimen_carries
  by_cases hroom : l.last - arrayRoom > l.sector
  · rw [if_pos hroom] at hgpt
    rw [tableIn_of_gptIn hreserved hgpt] at ht'
    cases ht'
    exact l.specimen_unused harray hprimary hroom hfirst
  · rw [if_neg hroom] at hgpt
    have h512 : gptIn (l.specimen false) 512 = none := by
      rcases l.sector_eq with h | h
      · rwa [h] at hgpt
      · exact hreserved h
    have h4096 : gptIn (l.specimen false) 4096 = none := by
      rcases l.sector_eq with h | h
      · exact l.specimen_large h
      · rwa [h] at hgpt
    rw [tableIn, h512, h4096, l.specimen_mbr] at ht'
    cases ht'

end Layout

/-- The backup of every disk of a layout gives what its primary gave if and only if the array
of the backup begins 32 KiB before the last sector, or the primary's own array does. -/
theorem backup_agrees_iff (l : Layout) :
    (∀ d d', l.Carries d → l.Destroyed d d' → Agree d d') ↔
      l.array + arrayRoom = l.last ∨ l.sector * 2 + arrayRoom = l.last := by
  constructor
  · intro h
    by_contra hplace
    rw [not_or] at hplace
    exact l.not_agree_specimen hplace.1 hplace.2
      (h _ _ l.specimen_carries l.specimen_destroyed)
  · intro h d d' hd hd'
    exact Layout.agree_of_place h hd hd'

/-- 128 entries of 128 bytes on a disk of 1 MiB, the copies next to the headers. -/
def usualLayout : Layout where
  sector := 512
  sectors := 2048
  count := 128
  entrySize := 128
  backupLba := 2015
  sector_eq := Or.inl rfl
  count_pos := by decide
  count_le := by decide
  entrySize_le := by decide
  entrySize_lt := by decide
  after := by decide
  before := by decide
  size_lt := by decide

/-- The backup of a usual disk gives other partitions. -/
theorem usual_backup_disagrees :
    ¬ ∀ (l : Layout) (d d' : Medium), l.Carries d → l.Destroyed d d' → Agree d d' := by
  intro h
  refine usualLayout.not_agree_specimen (by decide) (by decide) ?_
  exact h _ _ _ usualLayout.specimen_carries usualLayout.specimen_destroyed

end Scan
end ZvolRescue
