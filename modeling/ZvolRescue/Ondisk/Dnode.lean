import ZvolRescue.Lib.Word
import ZvolRescue.Ondisk.BlkPtr

/-!
# Dnodes

A dnode is one slot of 512 bytes or several: a core of 64 bytes, up to three block pointers,
the bonus buffer and at its end perhaps a spill pointer.
-/

namespace ZvolRescue
namespace Ondisk

open Lib

/-- Size of one dnode slot. -/
def dnodeSize : Nat := 512

/-- Bytes before the first block pointer. -/
def dnodeCoreSize : Nat := 64

/-- The last 128 bytes hold a spill pointer. -/
def flagSpillBlkptr : Nat := 4

/-- The type of a free dnode. -/
def otNone : Nat := 0

namespace Endian

/-- The 16-bit number at a byte offset. -/
def u16At (e : Endian) (buf : List UInt8) (off : Nat) : Nat :=
  match e with
  | .little => (buf.getD off 0).toNat + 256 * (buf.getD (off + 1) 0).toNat
  | .big => 256 * (buf.getD off 0).toNat + (buf.getD (off + 1) 0).toNat

theorem u16At_lt (e : Endian) (buf : List UInt8) (off : Nat) : e.u16At buf off < 2 ^ 16 := by
  have h0 := (buf.getD off 0).toNat_lt
  have h1 := (buf.getD (off + 1) 0).toNat_lt
  cases e with
  | little =>
    show _ + 256 * _ < _
    omega
  | big =>
    show 256 * _ + _ < _
    omega

end Endian

structure DnodePhys where
  objectType : Nat
  indblkshift : Nat
  nlevels : Nat
  nblkptr : Nat
  bonusType : Nat
  checksum : Nat
  compress : Nat
  flags : Nat
  /-- Data block size in sectors of 512 bytes. -/
  datablkszsec : Nat
  bonuslen : Nat
  /-- Slots beyond the first. -/
  extraSlots : Nat
  /-- Highest block id ever written. -/
  maxblkid : Nat
  used : Nat
  blkptr : List BlkPtr
  bonus : List UInt8
  spill : Option BlkPtr
  deriving DecidableEq, Repr

namespace DnodePhys

/-- Where the bonus buffer has to end. -/
def spillStart (flags total : Nat) : Nat :=
  if flags / flagSpillBlkptr % 2 = 0 then total else total - bpSize

/-- The pointer in the last 128 bytes, where the flags say that there is one. -/
def parseSpill (buf : List UInt8) (endian : Endian) (flags start : Nat) :
    Except ParseError (Option BlkPtr) :=
  if flags / flagSpillBlkptr % 2 = 0 then .ok none
  else (BlkPtr.parse ((buf.drop start).take bpSize) endian).map some

def parse (buf : List UInt8) (endian : Endian) : Except ParseError DnodePhys :=
  if buf.length < dnodeSize then .error (.truncated dnodeSize buf.length)
  else
    let byte := fun i => (buf.getD i 0).toNat
    let extraSlots := byte 12
    let total := dnodeSize * (1 + extraSlots)
    if buf.length < total then .error (.truncated total buf.length)
    else
      let nblkptr := byte 3
      if ¬ (1 ≤ nblkptr ∧ nblkptr ≤ 3) ∧ byte 0 ≠ otNone then
        .error (.malformed "dn_nblkptr outside 1..=3" 3)
      else
        let nbp := min nblkptr 3
        match (List.range nbp).mapM
          (fun i => BlkPtr.parse ((buf.drop (dnodeCoreSize + i * bpSize)).take bpSize) endian) with
        | .error e => .error e
        | .ok blkptr =>
          let flags := byte 7
          let bonusStart := dnodeCoreSize + nbp * bpSize
          let bonuslen := endian.u16At buf 10
          if bonusStart + bonuslen > spillStart flags total then
            .error (.malformed "dn_bonuslen overlaps spill pointer or dnode end" 10)
          else
            match parseSpill buf endian flags (spillStart flags total) with
            | .error e => .error e
            | .ok spill =>
              .ok
                { objectType := byte 0
                  indblkshift := byte 1
                  nlevels := byte 2
                  nblkptr
                  bonusType := byte 4
                  checksum := byte 5
                  compress := byte 6
                  flags
                  datablkszsec := endian.u16At buf 8
                  bonuslen, extraSlots
                  maxblkid := ((endian.u64At buf 16).getD 0).toNat
                  used := ((endian.u64At buf 24).getD 0).toNat
                  blkptr
                  bonus := (buf.drop bonusStart).take bonuslen
                  spill }

def isFree (d : DnodePhys) : Bool := d.objectType = otNone

/-- Data block size in bytes. -/
def datablksz (d : DnodePhys) : Nat := shl64 d.datablkszsec minBlockShift

/-- Numbers of a dnode that fit the width of their fields. -/
structure Sized (d : DnodePhys) : Prop where
  maxblkid : d.maxblkid < word
  datablkszsec : d.datablkszsec < 2 ^ 16

theorem Sized.datablksz_eq {d : DnodePhys} (h : d.Sized) : d.datablksz = d.datablkszsec * 512 := by
  have hlt := h.datablkszsec
  apply shl64_of_lt (by decide)
  show d.datablkszsec * 512 < 2 ^ 64
  omega

/-- The fields of the dnode at the start of `buf`, with the pointers that were read from it. -/
def ofParts (buf : List UInt8) (e : Endian) (blkptr : List BlkPtr) (spill : Option BlkPtr) :
    DnodePhys :=
  { objectType := (buf.getD 0 0).toNat
    indblkshift := (buf.getD 1 0).toNat
    nlevels := (buf.getD 2 0).toNat
    nblkptr := (buf.getD 3 0).toNat
    bonusType := (buf.getD 4 0).toNat
    checksum := (buf.getD 5 0).toNat
    compress := (buf.getD 6 0).toNat
    flags := (buf.getD 7 0).toNat
    datablkszsec := e.u16At buf 8
    bonuslen := e.u16At buf 10
    extraSlots := (buf.getD 12 0).toNat
    maxblkid := ((e.u64At buf 16).getD 0).toNat
    used := ((e.u64At buf 24).getD 0).toNat
    blkptr
    bonus := (buf.drop (dnodeCoreSize + min (buf.getD 3 0).toNat 3 * bpSize)).take (e.u16At buf 10)
    spill }

/-- What the parser asks of a buffer. -/
structure Parts (buf : List UInt8) (e : Endian) (blkptr : List BlkPtr) (spill : Option BlkPtr) :
    Prop where
  slot : dnodeSize ≤ buf.length
  total : dnodeSize * (1 + (buf.getD 12 0).toNat) ≤ buf.length
  nblkptr : (1 ≤ (buf.getD 3 0).toNat ∧ (buf.getD 3 0).toNat ≤ 3) ∨ (buf.getD 0 0).toNat = otNone
  blkptr : (List.range (min (buf.getD 3 0).toNat 3)).mapM (fun i =>
    BlkPtr.parse ((buf.drop (dnodeCoreSize + i * bpSize)).take bpSize) e) = .ok blkptr
  bonus : dnodeCoreSize + min (buf.getD 3 0).toNat 3 * bpSize + e.u16At buf 10 ≤
    spillStart (buf.getD 7 0).toNat (dnodeSize * (1 + (buf.getD 12 0).toNat))
  spill : parseSpill buf e (buf.getD 7 0).toNat
    (spillStart (buf.getD 7 0).toNat (dnodeSize * (1 + (buf.getD 12 0).toNat))) = .ok spill

theorem parse_of_parts {buf : List UInt8} {e : Endian} {blkptr : List BlkPtr}
    {spill : Option BlkPtr} (h : Parts buf e blkptr spill) :
    parse buf e = .ok (ofParts buf e blkptr spill) := by
  have hptrs : ¬ (¬ (1 ≤ (buf.getD 3 0).toNat ∧ (buf.getD 3 0).toNat ≤ 3) ∧
      (buf.getD 0 0).toNat ≠ otNone) := by
    rintro ⟨hcount, htype⟩
    exact h.nblkptr.elim hcount htype
  unfold parse
  rw [if_neg (Nat.not_lt.mpr h.slot)]
  simp only
  rw [if_neg (Nat.not_lt.mpr h.total), if_neg hptrs, h.blkptr]
  simp only
  rw [if_neg (Nat.not_lt.mpr h.bonus), h.spill]
  rfl

theorem parts_of_parse {buf : List UInt8} {e : Endian} {d : DnodePhys} (h : parse buf e = .ok d) :
    ∃ blkptr spill, Parts buf e blkptr spill ∧ d = ofParts buf e blkptr spill := by
  unfold parse at h
  by_cases hlen : buf.length < dnodeSize
  · rw [if_pos hlen] at h
    cases h
  rw [if_neg hlen] at h
  simp only at h
  by_cases htotal : buf.length < dnodeSize * (1 + (buf.getD 12 0).toNat)
  · rw [if_pos htotal] at h
    cases h
  rw [if_neg htotal] at h
  split at h
  · cases h
  rename_i hptrs
  split at h
  · cases h
  rename_i blkptr hblkptr
  split at h
  · cases h
  rename_i hbonus
  split at h
  · cases h
  rename_i spill hspill
  cases h
  refine ⟨blkptr, spill, ?_, rfl⟩
  exact
    { slot := Nat.not_lt.mp hlen
      total := Nat.not_lt.mp htotal
      nblkptr := by
        by_contra hnone
        rw [not_or] at hnone
        exact hptrs hnone
      blkptr := hblkptr
      bonus := Nat.not_lt.mp hbonus
      spill := hspill }

/-- What is accepted is whole, and its fields are the bytes at their places. -/
theorem parse_inv {buf : List UInt8} {e : Endian} {d : DnodePhys} (h : parse buf e = .ok d) :
    dnodeSize ≤ buf.length ∧ dnodeSize * (1 + (buf.getD 12 0).toNat) ≤ buf.length ∧
      ∃ blkptr spill, d = ofParts buf e blkptr spill := by
  obtain ⟨blkptr, spill, hparts, hd⟩ := parts_of_parse h
  exact ⟨hparts.slot, hparts.total, blkptr, spill, hd⟩

/-- What the parser accepts fits its fields, whatever the bytes. -/
theorem parse_sized {buf : List UInt8} {e : Endian} {d : DnodePhys} (h : parse buf e = .ok d) :
    d.Sized := by
  obtain ⟨-, -, blkptr, spill, rfl⟩ := parse_inv h
  exact ⟨UInt64.toNat_lt _, Endian.u16At_lt e buf 8⟩

end DnodePhys

end Ondisk
end ZvolRescue
