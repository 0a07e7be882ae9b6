import Mathlib.Data.List.Basic
import ZvolRescue.Lib.Word
import ZvolRescue.Ondisk.Error

/-!
# Partition tables

A GUID partition table is a header sector and an array of entries; an MBR is one sector.
Both are read as far as they make sense: `parseGpt` skips entries that are unused or name no
place on a disk.
-/

namespace ZvolRescue
namespace Ondisk

open Lib

/-! ## Fields -/

/-- The little-endian number of `n` bytes at an offset. -/
def leAt (b : List UInt8) (at_ : Nat) : (n : Nat) → Nat
  | 0 => 0
  | n + 1 => (b.getD at_ 0).toNat + 256 * leAt b (at_ + 1) n

/-- Byte `k` of a number. -/
def leByte (v k : Nat) : UInt8 := UInt8.ofNat (v / 256 ^ k)

theorem leAt_of_leByte {b : List UInt8} : ∀ n v at_,
    (∀ k, k < n → b.getD (at_ + k) 0 = leByte v k) → v < 256 ^ n → leAt b at_ n = v := by
  intro n
  induction n with
  | zero =>
    intro v at_ _ hv
    rw [leAt]
    omega
  | succ n ih =>
    intro v at_ h hv
    have hfirst : (b.getD at_ 0).toNat = v % 256 := by
      have h0 := h 0 (by omega)
      rw [Nat.add_zero, leByte, Nat.pow_zero, Nat.div_one] at h0
      rw [h0]
      simp
    have hrest : leAt b (at_ + 1) n = v / 256 := by
      apply ih
      · intro k hk
        have hk1 := h (k + 1) (by omega)
        rw [leByte, Nat.pow_succ', ← Nat.div_div_eq_div_mul] at hk1
        rw [Nat.add_assoc, Nat.add_comm 1 k, hk1, leByte]
      · rw [Nat.pow_succ] at hv
        omega
    rw [leAt, hfirst, hrest]
    omega

def u16le (b : List UInt8) (at_ : Nat) : Nat := leAt b at_ 2

def u32le (b : List UInt8) (at_ : Nat) : Nat := leAt b at_ 4

def u64le (b : List UInt8) (at_ : Nat) : Nat := leAt b at_ 8

/-- A GUID as tools print it: the first three fields little-endian, the rest big-endian. -/
def formatGuid (b : List UInt8) : String :=
  hexDigits 8 (u32le b 0) ++ "-" ++ hexDigits 4 (u16le b 4) ++ "-" ++ hexDigits 4 (u16le b 6) ++ "-" ++
    hexDigits 2 (b.getD 8 0).toNat ++ hexDigits 2 (b.getD 9 0).toNat ++ "-" ++
    String.join (((b.drop 10).take 6).map (fun x => hexDigits 2 x.toNat))

/-- The 16-bit units of a name up to the first zero. -/
def utf16Units : List UInt8 → List Nat
  | lo :: hi :: rest =>
    let u := lo.toNat + 256 * hi.toNat
    if u = 0 then [] else u :: utf16Units rest
  | _ => []

/-- The characters of UTF-16; none where a surrogate stands alone. -/
def fromUtf16 : List Nat → Option (List Char)
  | [] => some []
  | u :: rest =>
    if u < 0xd800 ∨ 0xe000 ≤ u then (fromUtf16 rest).map (Char.ofNat u :: ·)
    else
      match rest with
      | [] => none
      | v :: rest =>
        if u < 0xdc00 ∧ 0xdc00 ≤ v ∧ v < 0xe000 then
          (fromUtf16 rest).map (Char.ofNat (0x10000 + (u - 0xd800) * 0x400 + (v - 0xdc00)) :: ·)
        else none

def utf16Name (b : List UInt8) : Option String :=
  match utf16Units b with
  | [] => none
  | units => (fromUtf16 units).map String.ofList

/-! ## Tables -/

/-- A partition as the table describes it. -/
structure Partition where
  /-- 1-based index in the table. -/
  index : Nat
  /-- First byte. -/
  start : Nat
  /-- Length in bytes. -/
  length : Nat
  /-- The type GUID, or the type byte of an MBR. -/
  kind : String
  name : Option String
  /-- The unique GUID of the partition. -/
  guid : Option String
  /-- The type is one ZFS is normally found in. -/
  zfs : Bool
  deriving DecidableEq, Repr

structure PartitionTable where
  /-- `gpt`, `gpt-backup` or `mbr`. -/
  scheme : String
  /-- The sector size the table was read with. -/
  sector : Nat
  partitions : List Partition
  deriving DecidableEq, Repr

def gptZfs : String := "6a898cc3-1dd2-11b2-99a6-080020736631"

def gptFreebsdZfs : String := "516e7cba-6ecf-11d6-8ff8-00022d09712b"

/-- `EFI PART`. -/
def gptSignature : List UInt8 := [0x45, 0x46, 0x49, 0x20, 0x50, 0x41, 0x52, 0x54]

/-! ## GUID partition tables -/

/-- The partition of entry `i`; none for an unused entry and for one whose bounds are not
byte offsets. -/
def parseEntry (sector i : Nat) (e : List UInt8) : Option Partition :=
  if (e.take 16).all (· = 0) then none
  else
    let kind := formatGuid (e.take 16)
    let first := u64le e 32
    let last := u64le e 40
    if last < first then none
    else if first * sector < word ∧ last - first + 1 < word ∧ (last - first + 1) * sector < word then
      some
        { index := i + 1
          start := first * sector
          length := (last - first + 1) * sector
          kind
          name := utf16Name ((e.drop 56).take 72)
          guid :=
            if ((e.drop 16).take 16).all (· = 0) then none
            else some (formatGuid ((e.drop 16).take 16))
          zfs := kind = gptZfs ∨ kind = gptFreebsdZfs }
    else none

/-- The bytes of entry `i`. -/
def entryBytes (entries : List UInt8) (size i : Nat) : List UInt8 :=
  (entries.drop (i * size)).take (min size (entries.length - i * size))

/-- The partitions of `left` entries from entry `i` on; an array that ends early ends them. -/
def entriesFrom (entries : List UInt8) (sector size : Nat) : (left i : Nat) → List Partition
  | 0, _ => []
  | left + 1, i =>
    if i * size + 128 > entries.length then []
    else
      (parseEntry sector i (entryBytes entries size i)).toList ++
        entriesFrom entries sector size left (i + 1)

def parseGpt (header entries : List UInt8) (sector : Nat) (backup : Bool) : Option PartitionTable :=
  if header.length < 92 ∨ header.take 8 ≠ gptSignature then none
  else
    let count := u32le header 80
    let size := u32le header 84
    if size < 128 ∨ count = 0 ∨ count > 4096 then none
    else some
      { scheme := if backup then "gpt-backup" else "gpt"
        sector
        partitions := entriesFrom entries sector size count 0 }

/-- An entry that lies inside the first `n` bytes is read from those. -/
theorem entryBytes_eq {entries : List UInt8} {size i n : Nat} (hin : (i + 1) * size ≤ n)
    (hn : n ≤ entries.length) :
    entryBytes entries size i = ((entries.take n).drop (i * size)).take size := by
  have hsum : i * size + size ≤ n := by rwa [Nat.succ_mul] at hin
  rw [entryBytes, Nat.min_eq_left (by omega), List.drop_take, List.take_take,
    Nat.min_eq_left (by omega)]

/-- Arrays that begin with the same entries give the same partitions. -/
theorem entriesFrom_congr {a b : List UInt8} {n size : Nat} (sector : Nat) (hsize : 128 ≤ size)
    (ha : n ≤ a.length) (hb : n ≤ b.length) (h : a.take n = b.take n) :
    ∀ left i, (i + left) * size ≤ n →
      entriesFrom a sector size left i = entriesFrom b sector size left i := by
  intro left
  induction left with
  | zero => exact fun _ _ => rfl
  | succ left ih =>
    intro i hin
    have hfirst : (i + 1) * size ≤ n := (Nat.mul_le_mul_right size (by omega)).trans hin
    have hsum : i * size + size ≤ n := by rwa [Nat.succ_mul] at hfirst
    have hrest := ih (i + 1) (by rwa [show i + 1 + left = i + (left + 1) by omega])
    rw [entriesFrom, entriesFrom, if_neg (by omega), if_neg (by omega), hrest,
      entryBytes_eq hfirst ha, entryBytes_eq hfirst hb, h]

theorem index_of_parseEntry {sector i : Nat} {e : List UInt8} {p : Partition}
    (h : parseEntry sector i e = some p) : p.index = i + 1 := by
  simp only [parseEntry] at h
  split at h
  · cases h
  · split at h
    · cases h
    · split at h
      · rw [← Option.some.inj h]
      · cases h

/-- Entries from `i` on have indices past `i`. -/
theorem index_of_entriesFrom {entries : List UInt8} {sector size : Nat} {p : Partition} :
    ∀ left i, p ∈ entriesFrom entries sector size left i → i < p.index := by
  intro left
  induction left with
  | zero =>
    intro i h
    cases h
  | succ left ih =>
    intro i h
    rw [entriesFrom] at h
    split at h
    · cases h
    · rcases List.mem_append.mp h with h | h
      · have hindex := index_of_parseEntry (Option.mem_toList.mp h)
        omega
      · exact Nat.lt_of_succ_lt (ih (i + 1) h)

theorem parseEntry_unused {sector i : Nat} {e : List UInt8}
    (h : ∀ j, j < 16 → e.getD j 0 = 0) : parseEntry sector i e = none := by
  rw [parseEntry, if_pos]
  rw [List.all_eq_true]
  intro x hx
  obtain ⟨j, hj⟩ := List.getElem?_of_mem hx
  rw [List.getElem?_take] at hj
  split at hj
  · rename_i hlt
    have hzero := h j hlt
    rw [List.getD_eq_getElem?_getD, hj] at hzero
    simpa using hzero
  · cases hj

/-- An entry that is used and whose bounds are byte offsets is a partition. -/
theorem parseEntry_isSome {sector i : Nat} {e : List UInt8} (hused : e.getD 0 0 ≠ 0)
    (horder : u64le e 32 ≤ u64le e 40) (hstart : u64le e 32 * sector < word)
    (hlength : (u64le e 40 - u64le e 32 + 1) * sector < word) (hsector : 0 < sector) :
    (parseEntry sector i e).isSome := by
  have hall : (e.take 16).all (· = 0) = false := by
    cases e with
    | nil => exact absurd rfl hused
    | cons x rest =>
      have hx : x ≠ 0 := hused
      simp [hx]
  have hcount : u64le e 40 - u64le e 32 + 1 < word :=
    Nat.lt_of_le_of_lt (Nat.le_mul_of_pos_right _ hsector) hlength
  have hfits := And.intro hstart (And.intro hcount hlength)
  simp only [parseEntry, hall, Bool.false_eq_true, if_false, if_neg (Nat.not_lt.mpr horder),
    if_pos hfits, Option.isSome_some]

/-- Only the first entry has index 1. -/
theorem first_of_entriesFrom {entries : List UInt8} {sector size left : Nat} {p : Partition}
    (h : p ∈ entriesFrom entries sector size left 0) (hindex : p.index = 1) :
    parseEntry sector 0 (entryBytes entries size 0) = some p := by
  cases left with
  | zero => cases h
  | succ left =>
    rw [entriesFrom] at h
    split at h
    · cases h
    · rcases List.mem_append.mp h with h | h
      · exact Option.mem_toList.mp h
      · have hlt := index_of_entriesFrom left 1 h
        omega

/-- A first entry that is a partition has index 1. -/
theorem entriesFrom_first {entries : List UInt8} {sector size left : Nat} (hleft : 0 < left)
    (hlength : 128 ≤ entries.length)
    (h : (parseEntry sector 0 (entryBytes entries size 0)).isSome) :
    1 ∈ (entriesFrom entries sector size left 0).map Partition.index := by
  obtain ⟨p, hp⟩ := Option.isSome_iff_exists.mp h
  obtain ⟨left, rfl⟩ := Nat.exists_eq_succ_of_ne_zero (Nat.pos_iff_ne_zero.mp hleft)
  rw [entriesFrom, if_neg (by omega), hp]
  refine List.mem_map.mpr ⟨p, ?_, index_of_parseEntry hp⟩
  exact List.mem_append_left _ (List.mem_singleton.mpr rfl)

theorem entryBytes_getD {entries : List UInt8} {size j : Nat} (hj : j < 128) (hsize : 128 ≤ size)
    (hlength : 128 ≤ entries.length) :
    (entryBytes entries size 0).getD j 0 = entries.getD j 0 := by
  rw [entryBytes, Nat.zero_mul, List.drop_zero, Nat.sub_zero, List.getD_eq_getElem?_getD,
    List.getElem?_take, if_pos (by omega), List.getD_eq_getElem?_getD]

/-! ## MBR -/

/-- The partitions of `left` entries from entry `i` on; none where one is protective. -/
def mbrFrom (sector0 : List UInt8) (sector : Nat) : (left i : Nat) → Option (List Partition)
  | 0, _ => some []
  | left + 1, i =>
    let e := (sector0.drop (446 + i * 16)).take 16
    let kind := (e.getD 4 0).toNat
    let first := u32le e 8
    let sectors := u32le e 12
    if kind = 0 ∨ sectors = 0 then mbrFrom sector0 sector left (i + 1)
    else if kind = 0xee then none
    else (mbrFrom sector0 sector left (i + 1)).map
      ({ index := i + 1
         start := first * sector
         length := sectors * sector
         kind := "0x" ++ hexDigits 2 kind
         name := none
         guid := none
         zfs := kind = 0xbf } :: ·)

def parseMbr (sector0 : List UInt8) (sector : Nat) : Option PartitionTable :=
  if sector0.length < 512 ∨ sector0.getD 510 0 ≠ 0x55 ∨ sector0.getD 511 0 ≠ 0xaa then none
  else
    match mbrFrom sector0 sector 4 0 with
    | none => none
    | some [] => none
    | some partitions => some { scheme := "mbr", sector, partitions }

end Ondisk
end ZvolRescue
