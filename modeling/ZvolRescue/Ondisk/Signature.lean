import ZvolRescue.Lib.Regions
import ZvolRescue.Ondisk.Geom
import ZvolRescue.Ondisk.Nvlist
import ZvolRescue.Ondisk.Part

/-!
# Superblocks inside a volume

Nearly every filesystem writes a superblock near the front that carries the size it was made
for.  `identify` asks for each of ten formats in turn, and whatever size one of them states
fits in 64 bits (`identify_size_lt`).
-/

namespace ZvolRescue
namespace Ondisk
namespace Signature

open Lib
open Geom (asciiBytes)

/-- What was recognised. -/
inductive Kind where
  | ext
  | swap
  | xfs
  | btrfs
  | ntfs
  | fat32
  | ufs2
  | luks
  | gpt
  | zfsLabel
  deriving DecidableEq, Repr

/-- One thing recognised inside a volume.  The label is only printed and is left out. -/
structure Found where
  kind : Kind
  /-- Where the signature was, in bytes from the start of the volume. -/
  at_ : Nat
  /-- The size the signature says the volume was made for, when it says. -/
  size : Option Nat
  deriving DecidableEq, Repr

/-- Reads so many bytes at an offset, unless they cannot be read. -/
abbrev Reader := Nat → Nat → Option (List UInt8)

/-! ## Fields -/

def le16 (b : List UInt8) (o : Nat) : Option Nat := (slice b o (o + 2)).map (fun s => leAt s 0 2)

def le32 (b : List UInt8) (o : Nat) : Option Nat := (slice b o (o + 4)).map (fun s => leAt s 0 4)

def le64 (b : List UInt8) (o : Nat) : Option Nat := (slice b o (o + 8)).map (fun s => leAt s 0 8)

def be32 (b : List UInt8) (o : Nat) : Option Nat := (slice b o (o + 4)).map Read.beValue

def be64 (b : List UInt8) (o : Nat) : Option Nat := (slice b o (o + 8)).map Read.beValue

/-- A product that fits in 64 bits. -/
def checkedMul (a b : Nat) : Option Nat := if a * b < word then some (a * b) else none

/-- A size of nothing is no size. -/
def positive (size : Option Nat) : Option Nat := size.filter (fun n => 0 < n)

/-! ## Formats -/

/-- The superblock is at 1024 and says how many blocks of what size there are. -/
def ext (read : Reader) : Option Found := do
  let sb ← read 1024 0x160
  if (← le16 sb 0x38) ≠ 0xef53 then none
  else
    let logBlockSize ← le32 sb 0x18
    if logBlockSize > 6 then none
    else
      let block := 1024 * 2 ^ logBlockSize
      let blocks := (← le32 sb 0x04) + (← le32 sb 0x150) * 2 ^ 32
      some { kind := .ext, at_ := 1024, size := positive (checkedMul blocks block) }

def swapMagic : List UInt8 := asciiBytes "SWAPSPACE2"

/-- The magic is at the end of the first page and the header at 1024 says how many pages there
are.  The page size is whatever the machine that made it used. -/
def swap (read : Reader) : Option Found := do
  let page ← [4096, 8192, 16384, 65536].find? (fun page => read (page - 10) 10 = some swapMagic)
  let info ← read 1024 44
  let lastPage ← le32 info 4
  -- The label.
  let _ ← slice info 28 44
  some { kind := .swap, at_ := page - 10, size := checkedMul (lastPage + 1) page }

/-- Everything at the front, and big-endian. -/
def xfs (read : Reader) : Option Found := do
  let sb ← read 0 128
  if (← slice sb 0 4) ≠ asciiBytes "XFSB" then none
  else
    let block ← be32 sb 4
    let blocks ← be64 sb 8
    let _ ← slice sb 0x6c 0x78
    some { kind := .xfs, at_ := 0, size := positive (checkedMul blocks block) }

/-- The superblock is at 64 KiB and the magic 64 bytes into it. -/
def btrfs (read : Reader) : Option Found := do
  let sb ← read 0x10000 0x1000
  if (← slice sb 0x40 0x48) ≠ asciiBytes "_BHRfS_M" then none
  else
    let _ ← slice sb 0x12b 0x22b
    some { kind := .btrfs, at_ := 0x10040, size := positive (le64 sb 0x70) }

/-- The sector count excludes the backup sector at the end. -/
def ntfs (read : Reader) : Option Found := do
  let boot ← read 0 0x40
  if (← slice boot 3 11) ≠ asciiBytes "NTFS    " then none
  else
    let bytesPerSector ← le16 boot 0x0b
    if ¬ (512 ≤ bytesPerSector ∧ bytesPerSector ≤ 4096) then none
    else
      let sectors ← le64 boot 0x28
      let size := if sectors + 1 < word then checkedMul (sectors + 1) bytesPerSector else none
      some { kind := .ntfs, at_ := 0, size := positive size }

/-- The type string is at 0x52 and the 32-bit sector count at 0x20. -/
def fat32 (read : Reader) : Option Found := do
  let boot ← read 0 0x5a
  if (← slice boot 0x52 0x5a) ≠ asciiBytes "FAT32   " then none
  else
    let bytesPerSector ← le16 boot 0x0b
    if ¬ (512 ≤ bytesPerSector ∧ bytesPerSector ≤ 4096) then none
    else
      let sectors ← le32 boot 0x20
      some { kind := .fat32, at_ := 0, size := positive (checkedMul sectors bytesPerSector) }

/-- The size is kept in fragments and is not read. -/
def ufs2 (read : Reader) : Option Found := do
  let sb ← read 65536 1376
  if (← le32 sb 1372) ≠ 0x19540119 then none
  else some { kind := .ufs2, at_ := 65536 + 1372, size := none }

/-- Encrypted, so nothing inside can be read. -/
def luks (read : Reader) : Option Found := do
  let head ← read 0 8
  if (← slice head 0 6) ≠ asciiBytes "LUKS" ++ [0xba, 0xbe] then none
  else some { kind := .luks, at_ := 0, size := none }

/-- A GPT header in the second sector: the volume holds partitions. -/
def gpt (read : Reader) : Option Found :=
  ([512, 4096].find? (fun sector => read sector 8 = some (asciiBytes "EFI PART"))).map
    (fun sector => { kind := .gpt, at_ := sector, size := none })

/-- A vdev label: the configuration at 16 KiB is XDR-encoded and big-endian. -/
def zfsLabel (read : Reader) : Option Found := do
  let head ← read 16384 4
  if (← slice head 0 4) ≠ [1, 1, 0, 0] then none
  else some { kind := .zfsLabel, at_ := 16384, size := none }

/-- Everything recognisable near the front of a volume. -/
def identify (read : Reader) : List Found :=
  [ext, swap, xfs, btrfs, ntfs, fat32, ufs2, luks, gpt, zfsLabel].filterMap (fun f => f read)

/-! ## Sizes fit in 64 bits -/

/-- The size, where one is stated, is a 64-bit number. -/
def Fits (size : Option Nat) : Prop := ∀ n, size = some n → n < word

theorem fits_none : Fits none := fun _ h => by cases h

theorem fits_checkedMul (a b : Nat) : Fits (checkedMul a b) := by
  intro n h
  unfold checkedMul at h
  by_cases hfits : a * b < word
  · rw [if_pos hfits] at h
    cases h
    exact hfits
  · rw [if_neg hfits] at h
    cases h

theorem Fits.positive {size : Option Nat} (h : Fits size) : Fits (positive size) := by
  intro n hn
  exact h n (Option.filter_eq_some_iff.mp hn).1

theorem leAt_lt (b : List UInt8) : ∀ n at_, leAt b at_ n < 256 ^ n := by
  intro n
  induction n with
  | zero => exact fun _ => Nat.one_pos
  | succ n ih =>
    intro at_
    have hfirst := (b.getD at_ 0).toNat_lt
    have hrest := ih (at_ + 1)
    rw [leAt, Nat.pow_succ]
    omega

theorem fits_le64 (b : List UInt8) (o : Nat) : Fits (le64 b o) := by
  intro n h
  obtain ⟨s, -, rfl⟩ := Option.map_eq_some_iff.mp h
  exact leAt_lt s 8 0

/-- What is found, if anything is, states a 64-bit size or none. -/
def Sized (found : Option Found) : Prop := ∀ f, found = some f → Fits f.size

namespace Sized

theorem none : Sized .none := fun _ h => by cases h

theorem found {f : Found} (h : Fits f.size) : Sized (some f) := by
  intro f' hf
  cases hf
  exact h

theorem bind {α : Type} (o : Option α) {k : α → Option Found} (h : ∀ a, Sized (k a)) :
    Sized (o >>= k) := by
  cases o with
  | none => exact none
  | some a => exact h a

theorem ite {p : Prop} [Decidable p] {a b : Option Found} (ha : Sized a) (hb : Sized b) :
    Sized (if p then a else b) := by
  by_cases hp : p
  · rw [if_pos hp]
    exact ha
  · rw [if_neg hp]
    exact hb

end Sized

section Formats

variable (read : Reader)

theorem sized_ext : Sized (ext read) :=
  .bind _ fun _ => .bind _ fun _ => .ite .none <| .bind _ fun _ => .ite .none <|
    .bind _ fun _ => .bind _ fun _ => .found (fits_checkedMul _ _).positive

theorem sized_swap : Sized (swap read) :=
  .bind _ fun _ => .bind _ fun _ => .bind _ fun _ => .bind _ fun _ => .found (fits_checkedMul _ _)

theorem sized_xfs : Sized (xfs read) :=
  .bind _ fun _ => .bind _ fun _ => .ite .none <| .bind _ fun _ => .bind _ fun _ =>
    .bind _ fun _ => .found (fits_checkedMul _ _).positive

theorem sized_btrfs : Sized (btrfs read) :=
  .bind _ fun _ => .bind _ fun _ => .ite .none <| .bind _ fun _ => .found (fits_le64 _ _).positive

theorem sized_ntfs : Sized (ntfs read) := by
  refine .bind _ fun boot => .bind _ fun _ => .ite .none <| .bind _ fun bytesPerSector =>
    .ite .none <| .bind _ fun sectors => .found (Fits.positive ?_)
  by_cases hsum : sectors + 1 < word
  · rw [if_pos hsum]
    exact fits_checkedMul _ _
  · rw [if_neg hsum]
    exact fits_none

theorem sized_fat32 : Sized (fat32 read) :=
  .bind _ fun _ => .bind _ fun _ => .ite .none <| .bind _ fun _ => .ite .none <|
    .bind _ fun _ => .found (fits_checkedMul _ _).positive

theorem sized_ufs2 : Sized (ufs2 read) :=
  .bind _ fun _ => .bind _ fun _ => .ite .none <| .found fits_none

theorem sized_luks : Sized (luks read) :=
  .bind _ fun _ => .bind _ fun _ => .ite .none <| .found fits_none

theorem sized_gpt : Sized (gpt read) := by
  intro f hf
  obtain ⟨sector, -, rfl⟩ := Option.map_eq_some_iff.mp hf
  exact fits_none

theorem sized_zfsLabel : Sized (zfsLabel read) :=
  .bind _ fun _ => .bind _ fun _ => .ite .none <| .found fits_none

/-- Whatever lies at the front of a volume, no size that is recognised there exceeds 64 bits. -/
theorem identify_size_lt {f : Found} (hf : f ∈ identify read) : Fits f.size := by
  obtain ⟨format, hformat, hfound⟩ := List.mem_filterMap.mp hf
  simp only [List.mem_cons, List.not_mem_nil, or_false] at hformat
  rcases hformat with rfl | rfl | rfl | rfl | rfl | rfl | rfl | rfl | rfl | rfl
  · exact sized_ext read f hfound
  · exact sized_swap read f hfound
  · exact sized_xfs read f hfound
  · exact sized_btrfs read f hfound
  · exact sized_ntfs read f hfound
  · exact sized_fat32 read f hfound
  · exact sized_ufs2 read f hfound
  · exact sized_luks read f hfound
  · exact sized_gpt read f hfound
  · exact sized_zfsLabel read f hfound

end Formats

end Signature
end Ondisk
end ZvolRescue
