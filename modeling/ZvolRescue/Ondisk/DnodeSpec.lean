import ZvolRescue.Lib.Regions
import ZvolRescue.Ondisk.Carve
import ZvolRescue.Ondisk.Seal
import ZvolRescue.Ondisk.SystemAttrs

/-!
# Writing a dnode

A builder writes the fields of a dnode into its slots.  Where the pieces fit next to one
another, the parser reads back what was written (`parse_build`).
-/

namespace ZvolRescue
namespace Ondisk

open Lib

/-- `dn_used` counts bytes, not sectors. -/
def flagUsedBytes : Nat := 1

/-- Everything needed to serialise one dnode. -/
structure DnodeSpec where
  objectType : Nat
  indblkshift : Nat
  nlevels : Nat
  /-- Data block size in bytes. -/
  datablksz : Nat
  maxblkid : Nat
  /-- One to three block pointers. -/
  blkptrs : List (List UInt8)
  bonusType : Nat
  bonus : List UInt8
  /-- Sets the flag of the spill pointer. -/
  spill : Option (List UInt8)
  extraSlots : Nat

namespace DnodeSpec

variable (s : DnodeSpec)

def total : Nat := dnodeSize * (1 + s.extraSlots)

def flags : Nat := flagUsedBytes ||| (if s.spill.isSome then flagSpillBlkptr else 0)

def bonusAt : Nat := dnodeCoreSize + s.blkptrs.length * bpSize

/-- The bytes at the front. -/
def head : List Nat :=
  [s.objectType, s.indblkshift, s.nlevels, s.blkptrs.length, s.bonusType]

/-- What is written where. -/
def writes : List (Nat × List UInt8) :=
  [(0, s.head.map UInt8.ofNat),
    (7, [UInt8.ofNat s.flags]),
    (8, Endian.little.bytes16 (shr64 s.datablksz minBlockShift)),
    (10, Endian.little.bytes16 s.bonus.length),
    (12, [UInt8.ofNat s.extraSlots]),
    (16, Endian.little.bytes (UInt64.ofNat s.maxblkid)),
    -- The pointers, one after another.
    (dnodeCoreSize, s.blkptrs.flatten),
    (s.bonusAt, s.bonus)] ++
    s.spill.toList.map (fun spill => (s.total - bpSize, spill))

/-- The little-endian bytes of the slots.  It fails where the assertion on the number of pointers
does, or where a piece does not fit. -/
def build : Option (List UInt8) :=
  if 1 ≤ s.blkptrs.length ∧ s.blkptrs.length ≤ 3 then
    overwriteAll s.writes (List.replicate s.total 0)
  else none

/-- The pieces are of their sizes and fit next to one another, and the numbers into their
fields. -/
structure WellFormed : Prop where
  blkptrs : 1 ≤ s.blkptrs.length ∧ s.blkptrs.length ≤ 3
  pointer : ∀ bp ∈ s.blkptrs, bp.length = bpSize
  spill : ∀ bp, s.spill = some bp → bp.length = bpSize
  room : s.bonusAt + s.bonus.length ≤ DnodePhys.spillStart s.flags s.total
  bonus : s.bonus.length < 2 ^ 16
  objectType : s.objectType < 2 ^ 8
  indblkshift : s.indblkshift < 2 ^ 8
  nlevels : s.nlevels < 2 ^ 8
  bonusType : s.bonusType < 2 ^ 8
  extraSlots : s.extraSlots < 2 ^ 8
  datablksz : shr64 s.datablksz minBlockShift < 2 ^ 16
  maxblkid : s.maxblkid < word

variable {s}

theorem flags_spill : s.flags / flagSpillBlkptr % 2 = if s.spill.isSome then 1 else 0 := by
  rw [flags]
  cases s.spill.isSome <;> decide

theorem flags_lt : s.flags < 2 ^ 8 := by
  rw [flags]
  cases s.spill.isSome <;> decide

theorem flatten_length (h : s.WellFormed) : s.blkptrs.flatten.length = s.blkptrs.length * bpSize := by
  rw [List.length_flatten, List.map_congr_left h.pointer, List.map_const', List.sum_replicate]
  rfl

theorem spillStart_flags :
    DnodePhys.spillStart s.flags s.total = if s.spill.isSome then s.total - bpSize else s.total := by
  rw [DnodePhys.spillStart, flags_spill]
  cases s.spill.isSome <;> rfl

/-- The regions that are written, by their bounds. -/
theorem regionsOf_writes (h : s.WellFormed) :
    regionsOf s.writes =
      [(0, 5), (7, 1), (8, 2), (10, 2), (12, 1), (16, 8),
        (dnodeCoreSize, s.blkptrs.length * bpSize), (s.bonusAt, s.bonus.length)] ++
        if s.spill.isSome then [(s.total - bpSize, bpSize)] else [] := by
  have hspill := h.spill
  rw [regionsOf, writes, List.map_append]
  congr 1
  · simp only [List.map_cons, List.map_nil, List.length_cons, List.length_nil,
      Endian.length_bytes16, Endian.bytes_length, flatten_length h, head]
  · cases hs : s.spill with
    | none => rfl
    | some bp => simp only [Option.toList_some, List.map_cons, List.map_nil, hspill bp hs,
        Option.isSome_some, if_true]

theorem WellFormed.apart (h : s.WellFormed) : Apart s.total (regionsOf s.writes) := by
  have hroom := h.room
  have hslots : 512 ≤ s.total := Nat.le_mul_of_pos_right _ (by omega)
  have hcore : dnodeCoreSize = 64 := rfl
  have hbp : bpSize = 128 := rfl
  have hbonusAt : s.bonusAt = 64 + s.blkptrs.length * 128 := rfl
  rw [spillStart_flags] at hroom
  rw [regionsOf_writes h]
  cases hs : s.spill.isSome with
  | false =>
    rw [hs] at hroom
    simp only [Bool.false_eq_true, if_false, List.append_nil] at hroom ⊢
    constructor
    · simp only [List.pairwise_cons, List.forall_mem_cons, List.not_mem_nil, hcore, hbp, hbonusAt]
      simp
      omega
    · simp only [List.forall_mem_cons, List.not_mem_nil, hcore, hbp, hbonusAt]
      simp
      omega
  | true =>
    rw [hs] at hroom
    simp only [if_true, List.cons_append, List.nil_append] at hroom ⊢
    constructor
    · simp only [List.pairwise_cons, List.forall_mem_cons, List.not_mem_nil, hcore, hbp, hbonusAt]
      simp
      omega
    · simp only [List.forall_mem_cons, List.not_mem_nil, hcore, hbp, hbonusAt]
      simp
      omega

/-- Each piece lies at its place. -/
structure Written (s : DnodeSpec) (b : List UInt8) : Prop where
  length : b.length = s.total
  head : regionOf b (0, (s.head.map UInt8.ofNat).length) = s.head.map UInt8.ofNat
  flags : regionOf b (7, ([s.flags].map UInt8.ofNat).length) = [s.flags].map UInt8.ofNat
  sectors : regionOf b (8, 2) = Endian.little.bytes16 (shr64 s.datablksz minBlockShift)
  bonuslen : regionOf b (10, 2) = Endian.little.bytes16 s.bonus.length
  extraSlots : regionOf b (12, ([s.extraSlots].map UInt8.ofNat).length) =
    [s.extraSlots].map UInt8.ofNat
  maxblkid : regionOf b (16, 8) = Endian.little.bytes (UInt64.ofNat s.maxblkid)
  pointers : regionOf b (dnodeCoreSize, s.blkptrs.flatten.length) = s.blkptrs.flatten
  bonus : regionOf b (s.bonusAt, s.bonus.length) = s.bonus
  spill : ∀ bp, s.spill = some bp → regionOf b (s.total - bpSize, bpSize) = bp

theorem build_spec (h : s.WellFormed) : ∃ b, s.build = some b ∧ s.Written b := by
  have hlen : (List.replicate s.total (0 : UInt8)).length = s.total := List.length_replicate
  have hapart : Apart (List.replicate s.total (0 : UInt8)).length (regionsOf s.writes) := by
    rw [hlen]
    exact h.apart
  obtain ⟨b, hb, hlength, -, hwritten⟩ := overwriteAll_spec hapart
  have hall : ∀ at_ piece, (at_, piece) ∈ s.writes → regionOf b (at_, piece.length) = piece :=
    fun at_ piece hmem => hwritten (at_, piece) hmem
  refine ⟨b, by rw [build, if_pos h.blkptrs, hb], ?_⟩
  exact
    { length := hlength.trans hlen
      head := hall 0 _ (by simp [writes])
      flags := hall 7 ([s.flags].map UInt8.ofNat) (by simp [writes])
      sectors := hall 8 (Endian.little.bytes16 _) (by simp [writes])
      bonuslen := hall 10 (Endian.little.bytes16 _) (by simp [writes])
      extraSlots := hall 12 ([s.extraSlots].map UInt8.ofNat) (by simp [writes])
      maxblkid := hall 16 (Endian.little.bytes _) (by simp [writes])
      pointers := hall dnodeCoreSize _ (by simp [writes])
      bonus := hall s.bonusAt _ (by simp [writes])
      spill := fun bp hbp => by
        have hregion := hall (s.total - bpSize) bp (by simp [writes, hbp])
        rwa [h.spill bp hbp] at hregion }

/-! ## Reading it back -/

section Fields

variable {b : List UInt8} {off : Nat}

theorem byte_of_regionOf {l : List Nat}
    (h : regionOf b (off, (l.map UInt8.ofNat).length) = l.map UInt8.ofNat) (i : Nat) {n : Nat}
    (hget : l[i]? = some n) (hn : n < 2 ^ 8) : (b.getD (off + i) 0).toNat = n := by
  obtain ⟨hi, -⟩ := List.getElem?_eq_some_iff.mp hget
  rw [getD_of_regionOf h 0 (by rw [List.length_map]; exact hi), List.getD_eq_getElem?_getD,
    List.getElem?_map, hget]
  exact UInt8.toNat_ofNat_of_lt' hn

theorem u16At_of_regionOf {n : Nat} (hn : n < 2 ^ 16)
    (h : regionOf b (off, 2) = Endian.little.bytes16 n) : Endian.little.u16At b off = n := by
  have hpiece : regionOf b (off, (Endian.little.bytes16 n).length) = Endian.little.bytes16 n := h
  have hlow := getD_of_regionOf hpiece 0 (i := 0) (by decide : 0 < 2)
  have hhigh := getD_of_regionOf hpiece 0 (i := 1) (by decide : 1 < 2)
  have hread := Endian.u16At_bytes16 .little [] [] n rfl
  rw [Nat.add_zero] at hlow
  have hmod : n % 65536 = n := Nat.mod_eq_of_lt hn
  rw [hmod] at hread
  rw [Endian.u16At, hlow, hhigh]
  exact hread

theorem u64At_of_regionOf {e : Endian} {w : UInt64} (hoff : off + 8 ≤ b.length)
    (h : regionOf b (off, 8) = e.bytes w) : e.u64At b off = some w := by
  have hbytes : (b.drop off).take 8 = e.bytes w := h
  rw [Endian.u64At, if_pos hoff, hbytes, Endian.value_bytes]

end Fields

/-- The dnode has the fields that were written, and the pointers that their bytes parse to. -/
structure ReadBack (s : DnodeSpec) (blkptr : List BlkPtr) (spill : Option BlkPtr) (d : DnodePhys) :
    Prop where
  objectType : d.objectType = s.objectType
  indblkshift : d.indblkshift = s.indblkshift
  nlevels : d.nlevels = s.nlevels
  nblkptr : d.nblkptr = s.blkptrs.length
  bonusType : d.bonusType = s.bonusType
  datablkszsec : d.datablkszsec = shr64 s.datablksz minBlockShift
  extraSlots : d.extraSlots = s.extraSlots
  maxblkid : d.maxblkid = s.maxblkid
  bonuslen : d.bonuslen = s.bonus.length
  blkptr : d.blkptr = blkptr
  bonus : d.bonus = s.bonus
  spill : d.spill = spill

/-- Each pointer lies where the parser looks for it. -/
theorem pointer_of_regionOf (h : s.WellFormed) {b : List UInt8}
    (hb : regionOf b (dnodeCoreSize, s.blkptrs.flatten.length) = s.blkptrs.flatten) :
    (List.range s.blkptrs.length).map
      (fun i => (b.drop (dnodeCoreSize + i * bpSize)).take bpSize) = s.blkptrs := by
  apply List.ext_getElem
  · rw [List.length_map, List.length_range]
  · intro i hi hlt
    have hin : i * bpSize + bpSize ≤ s.blkptrs.flatten.length := by
      rw [flatten_length h, ← Nat.succ_mul]
      exact Nat.mul_le_mul_right _ hlt
    have hpiece := regionOf_flatten h.pointer hlt
    rw [← hb, regionOf, regionOf, drop_take_take hin, List.drop_drop] at hpiece
    rw [List.getElem_map, List.getElem_range]
    exact hpiece

theorem parseSpill_of_written {b : List UInt8} (hw : s.Written b)
    {spill : Option BlkPtr}
    (hspill : s.spill.mapM (fun bp => BlkPtr.parse bp .little) = .ok spill) :
    DnodePhys.parseSpill b .little s.flags (DnodePhys.spillStart s.flags s.total) = .ok spill := by
  rw [DnodePhys.parseSpill, spillStart_flags, flags_spill]
  cases hs : s.spill with
  | none =>
    rw [hs] at hspill
    exact hspill
  | some bp =>
    have hregion : (b.drop (s.total - bpSize)).take bpSize = bp := hw.spill bp hs
    rw [hs] at hspill
    simp only [Option.isSome_some, if_true, Nat.one_ne_zero, if_false, hregion]
    exact hspill

/-- What is built parses to what it was built of. -/
theorem parse_build (h : s.WellFormed) {blkptr : List BlkPtr} {spill : Option BlkPtr}
    (hblkptr : s.blkptrs.mapM (fun bp => BlkPtr.parse bp .little) = .ok blkptr)
    (hspill : s.spill.mapM (fun bp => BlkPtr.parse bp .little) = .ok spill) :
    ∃ b d, s.build = some b ∧ DnodePhys.parse b .little = .ok d ∧ s.ReadBack blkptr spill d := by
  obtain ⟨b, hb, hw⟩ := build_spec h
  have hslots : dnodeSize ≤ s.total := Nat.le_mul_of_pos_right _ (by omega)
  have hsize : dnodeSize = 512 := rfl
  have hlength := hw.length
  have htype : (b.getD 0 0).toNat = s.objectType :=
    byte_of_regionOf hw.head 0 rfl h.objectType
  have hcount : (b.getD 3 0).toNat = s.blkptrs.length :=
    byte_of_regionOf hw.head 3 rfl (Nat.lt_of_le_of_lt h.blkptrs.2 (by decide))
  have hflags : (b.getD 7 0).toNat = s.flags := byte_of_regionOf hw.flags 0 rfl flags_lt
  have hextra : (b.getD 12 0).toNat = s.extraSlots :=
    byte_of_regionOf hw.extraSlots 0 rfl h.extraSlots
  have hbonuslen := u16At_of_regionOf h.bonus hw.bonuslen
  have hmax : Endian.little.u64At b 16 = some (UInt64.ofNat s.maxblkid) :=
    u64At_of_regionOf (by omega) hw.maxblkid
  have hmin : min s.blkptrs.length 3 = s.blkptrs.length := Nat.min_eq_left h.blkptrs.2
  have hparts : DnodePhys.Parts b .little blkptr spill :=
    { slot := by omega
      total := by
        rw [hextra]
        exact hlength.ge
      nblkptr := Or.inl (by rw [hcount]; exact h.blkptrs)
      blkptr := by
        rw [hcount, hmin, ← hblkptr]
        conv_rhs => rw [← pointer_of_regionOf h hw.pointers]
        rw [List.mapM_map]
        rfl
      bonus := by
        rw [hcount, hmin, hbonuslen, hflags, hextra]
        exact h.room
      spill := by
        rw [hflags, hextra]
        exact parseSpill_of_written hw hspill }
  refine ⟨b, _, hb, DnodePhys.parse_of_parts hparts, ?_⟩
  exact
    { objectType := htype
      indblkshift := byte_of_regionOf hw.head 1 rfl h.indblkshift
      nlevels := byte_of_regionOf hw.head 2 rfl h.nlevels
      nblkptr := hcount
      bonusType := byte_of_regionOf hw.head 4 rfl h.bonusType
      datablkszsec := u16At_of_regionOf h.datablksz hw.sectors
      extraSlots := hextra
      maxblkid := by
        show ((Endian.little.u64At b 16).getD 0).toNat = s.maxblkid
        rw [hmax]
        exact UInt64.toNat_ofNat_of_lt' h.maxblkid
      bonuslen := hbonuslen
      blkptr := rfl
      bonus := by
        show (b.drop (dnodeCoreSize + min (b.getD 3 0).toNat 3 * bpSize)).take
          (Endian.little.u16At b 10) = s.bonus
        rw [hcount, hmin, hbonuslen]
        exact hw.bonus
      spill := rfl }

end DnodeSpec

end Ondisk
end ZvolRescue
