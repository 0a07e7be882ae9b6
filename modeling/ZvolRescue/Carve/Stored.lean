import ZvolRescue.Dmu.Object
import ZvolRescue.Extract.Sink
import ZvolRescue.Lib.Text
import ZvolRescue.Ondisk.DnodeSpec

/-!
# A candidate in the index

The index keeps a candidate's dnode as the hexadecimal of its bytes, written from the decoded
fields.  What a later run reads from it has the tree that was assessed (`candidate_survives`).
-/

namespace ZvolRescue
namespace Carve

open Lib Ondisk Dmu

/-! ## Hexadecimal -/

/-- Hex, as the index stores a dnode. -/
def toHex (bytes : List UInt8) : String := Extract.hexBytes bytes

/-- Two digits; a plus sign may stand for the first. -/
def hexPair (a b : Char) : Option UInt8 :=
  if a = '+' then (hexDigit b).map UInt8.ofNat
  else do return UInt8.ofNat (16 * (← hexDigit a) + (← hexDigit b))

/-- What stands in each two characters.  A pair that ends inside a character fails as well. -/
def hexPairs : List Char → Except String (List UInt8)
  | [] => .ok []
  | [_] => .error "invalid digit found in string"
  | a :: b :: rest =>
    match hexPair a b with
    | none => .error "invalid digit found in string"
    | some byte => (hexPairs rest).map (byte :: ·)

/-- Back from hex, refusing anything that is not a whole number of bytes. -/
def fromHex (s : String) : Except String (List UInt8) :=
  if s.utf8ByteSize % 2 ≠ 0 then .error "odd number of hex digits" else hexPairs s.toList

theorem hexDigit_digitChar {n : Nat} (h : n < 16) : hexDigit (Nat.digitChar n) = some n := by
  have hall : ∀ x : Fin 16, hexDigit (Nat.digitChar x) = some x.val := by decide
  exact hall ⟨n, h⟩

theorem hexPair_digits (byte : UInt8) :
    hexPair (Nat.digitChar (byte.toNat / 16)) (Nat.digitChar (byte.toNat % 16)) = some byte := by
  have hlt := byte.toNat_lt
  have hhigh : byte.toNat / 16 < 16 := by omega
  have hlow : byte.toNat % 16 < 16 := Nat.mod_lt _ (by decide)
  have hsign : ∀ x : Fin 16, Nat.digitChar x ≠ '+' := by decide
  have hvalue : 16 * (byte.toNat / 16) + byte.toNat % 16 = byte.toNat := Nat.div_add_mod _ _
  rw [hexPair, if_neg (hsign ⟨byte.toNat / 16, hhigh⟩), hexDigit_digitChar hhigh,
    hexDigit_digitChar hlow]
  show some (UInt8.ofNat (16 * (byte.toNat / 16) + byte.toNat % 16)) = some byte
  rw [hvalue, UInt8.ofNat_toNat]

theorem hexPairs_digits (bytes : List UInt8) :
    hexPairs (bytes.flatMap (fun b =>
      [Nat.digitChar (b.toNat / 16), Nat.digitChar (b.toNat % 16)])) = .ok bytes := by
  induction bytes with
  | nil => rfl
  | cons byte bytes ih =>
    rw [List.flatMap_cons, List.cons_append, List.cons_append, List.nil_append, hexPairs,
      hexPair_digits]
    simp only [ih]
    rfl

/-- Digits are of one byte each. -/
theorem utf8ByteSize_digits (l : List Char) (h : ∀ c ∈ l, c.utf8Size = 1) :
    (String.ofList l).utf8ByteSize = l.length := by
  induction l with
  | nil => rfl
  | cons c l ih =>
    have hc := h c List.mem_cons_self
    have hrest := ih (fun d hd => h d (List.mem_cons_of_mem _ hd))
    rw [String.ofList_cons, String.utf8ByteSize_append, String.utf8ByteSize_singleton, hc, hrest,
      List.length_cons, Nat.add_comm]

theorem fromHex_toHex (bytes : List UInt8) : fromHex (toHex bytes) = .ok bytes := by
  have hdigit : ∀ x : Fin 16, (Nat.digitChar x).utf8Size = 1 := by decide
  have hsize : (toHex bytes).utf8ByteSize = bytes.length * 2 := by
    rw [toHex, Extract.hexBytes, utf8ByteSize_digits]
    · rw [List.length_flatMap]
      show (bytes.map (fun _ => 2)).sum = bytes.length * 2
      rw [List.map_const', List.sum_replicate]
      rfl
    · intro c hc
      obtain ⟨byte, -, hmem⟩ := List.mem_flatMap.mp hc
      have hlt := byte.toNat_lt
      rcases List.mem_pair.mp hmem with rfl | rfl
      · exact hdigit ⟨byte.toNat / 16, by omega⟩
      · exact hdigit ⟨byte.toNat % 16, Nat.mod_lt _ (by decide)⟩
  rw [fromHex, hsize, Nat.mul_mod_left, if_neg (not_not.mpr rfl), toHex, Extract.hexBytes,
    String.toList_ofList]
  exact hexPairs_digits bytes

/-! ## The stored dnode -/

def specOf (d : DnodePhys) : DnodeSpec where
  objectType := d.objectType
  indblkshift := d.indblkshift
  nlevels := d.nlevels
  datablksz := d.datablksz
  maxblkid := d.maxblkid
  blkptrs := d.blkptr.map BlkPtr.raw
  bonusType := d.bonusType
  bonus := d.bonus
  spill := d.spill.map BlkPtr.raw
  extraSlots := d.extraSlots

/-- The dnode's own bytes, as the index stores them. -/
def dnodeBytes (d : DnodePhys) : Option (List UInt8) := (specOf d).build

/-- A dnode with the same fields, from which every block is found through the same pointers. -/
structure SameTree (d d' : DnodePhys) : Prop where
  objectType : d'.objectType = d.objectType
  indblkshift : d'.indblkshift = d.indblkshift
  nlevels : d'.nlevels = d.nlevels
  datablksz : d'.datablksz = d.datablksz
  maxblkid : d'.maxblkid = d.maxblkid
  blkptr : d'.blkptr = d.blkptr
  bonusType : d'.bonusType = d.bonusType
  bonus : d'.bonus = d.bonus
  spill : d'.spill = d.spill
  extraSlots : d'.extraSlots = d.extraSlots
  walks : ∀ {m : Type → Type} [Monad m] (reader : PoolReader m) (endian : Endian) (blkid : Nat),
    (ObjectReader.mk reader d' endian).locate blkid = (ObjectReader.mk reader d endian).locate blkid

theorem epbs_congr {m : Type → Type} [Monad m] (reader : PoolReader m) (endian : Endian)
    {d d' : DnodePhys} (hshift : d'.indblkshift = d.indblkshift) :
    (ObjectReader.mk reader d' endian).epbs = (ObjectReader.mk reader d endian).epbs := by
  rw [ObjectReader.epbs, ObjectReader.epbs, hshift]

/-- The pointers of a tree are found by the indirect shift alone. -/
theorem locateFrom_congr {m : Type → Type} [Monad m] (reader : PoolReader m) (endian : Endian)
    {d d' : DnodePhys} (hshift : d'.indblkshift = d.indblkshift) (blkid : Nat) :
    ∀ level bp, (ObjectReader.mk reader d' endian).locateFrom blkid level bp =
      (ObjectReader.mk reader d endian).locateFrom blkid level bp := by
  intro level
  induction level with
  | zero => exact fun bp => rfl
  | succ level ih =>
    intro bp
    simp only [ObjectReader.locateFrom, epbs_congr reader endian hshift, ih]

theorem locate_congr {m : Type → Type} [Monad m] (reader : PoolReader m) (endian : Endian)
    {d d' : DnodePhys} (hshift : d'.indblkshift = d.indblkshift) (hlevels : d'.nlevels = d.nlevels)
    (hblkptr : d'.blkptr = d.blkptr) (blkid : Nat) :
    (ObjectReader.mk reader d' endian).locate blkid =
      (ObjectReader.mk reader d endian).locate blkid := by
  simp only [ObjectReader.locate, hlevels, hblkptr, epbs_congr reader endian hshift,
    locateFrom_congr reader endian hshift blkid]

/-! ## What a parsed dnode is stored as -/

/-- A pointer keeps the bytes that it was parsed from. -/
theorem raw_of_parse {piece : List UInt8} {e : Endian} {bp : BlkPtr} (hlen : piece.length = bpSize)
    (h : BlkPtr.parse piece e = .ok bp) : bp.raw = piece := by
  rw [BlkPtr.parse, if_neg (Nat.not_lt.mpr hlen.ge)] at h
  cases h
  exact List.take_of_length_le hlen.le

theorem raws_of_mapM {e : Endian} {pieces : List (List UInt8)} {blkptr : List BlkPtr}
    (hlen : ∀ p ∈ pieces, p.length = bpSize)
    (h : pieces.mapM (fun p => BlkPtr.parse p e) = .ok blkptr) : blkptr.map BlkPtr.raw = pieces := by
  induction pieces generalizing blkptr with
  | nil =>
    cases h
    rfl
  | cons piece pieces ih =>
    rw [List.mapM_cons] at h
    cases hpiece : BlkPtr.parse piece e with
    | error err =>
      rw [hpiece] at h
      cases h
    | ok bp =>
      cases hrest : pieces.mapM (fun p => BlkPtr.parse p e) with
      | error err =>
        rw [hpiece, hrest] at h
        cases h
      | ok bps =>
        rw [hpiece, hrest] at h
        cases h
        rw [List.map_cons, raw_of_parse (hlen piece List.mem_cons_self) hpiece,
          ih (fun p hp => hlen p (List.mem_cons_of_mem _ hp)) hrest]

section Parsed

variable {buf : List UInt8} {blkptr : List BlkPtr} {spill : Option BlkPtr}

/-- The slots of the pointers in a buffer. -/
def pieces (buf : List UInt8) : List (List UInt8) :=
  (List.range (buf.getD 3 0).toNat).map
    (fun i => (buf.drop (dnodeCoreSize + i * bpSize)).take bpSize)

theorem spillStart_le (flags total : Nat) : DnodePhys.spillStart flags total ≤ total := by
  rw [DnodePhys.spillStart]
  split
  · exact Nat.le_refl _
  · exact Nat.sub_le _ _

theorem pieces_spec (h : DnodePhys.Parts buf .little blkptr spill)
    (hcount : (buf.getD 3 0).toNat ≤ 3) :
    blkptr.map BlkPtr.raw = pieces buf ∧
      (pieces buf).mapM (fun p => BlkPtr.parse p .little) = .ok blkptr ∧
      ∀ p ∈ pieces buf, p.length = bpSize := by
  have hbonus := h.bonus
  have hstart := spillStart_le (buf.getD 7 0).toNat (dnodeSize * (1 + (buf.getD 12 0).toNat))
  have htotal := h.total
  rw [Nat.min_eq_left hcount] at hbonus
  have hlen : ∀ p ∈ pieces buf, p.length = bpSize := by
    intro p hp
    obtain ⟨i, hi, rfl⟩ := List.mem_map.mp hp
    have hlast : i * bpSize + bpSize ≤ (buf.getD 3 0).toNat * bpSize := by
      rw [← Nat.succ_mul]
      exact Nat.mul_le_mul_right _ (List.mem_range.mp hi)
    rw [List.length_take, List.length_drop]
    omega
  have hparse : (pieces buf).mapM (fun p => BlkPtr.parse p .little) = .ok blkptr := by
    have hread := h.blkptr
    rw [Nat.min_eq_left hcount] at hread
    rw [pieces, List.mapM_map]
    exact hread
  exact ⟨raws_of_mapM hlen hparse, hparse, hlen⟩

/-- The spill pointer's bytes parse to it, and it is there where the flags say so. -/
theorem spill_spec (h : DnodePhys.Parts buf .little blkptr spill) :
    (spill.map BlkPtr.raw).mapM (fun p => BlkPtr.parse p .little) = .ok spill ∧
      (∀ p, spill.map BlkPtr.raw = some p → p.length = bpSize) ∧
      (buf.getD 7 0).toNat / flagSpillBlkptr % 2 = if spill.isSome then 1 else 0 := by
  have hspill := h.spill
  have htotal := h.total
  have hslots : dnodeSize ≤ dnodeSize * (1 + (buf.getD 12 0).toNat) :=
    Nat.le_mul_of_pos_right _ (by omega)
  have hsizes : bpSize ≤ dnodeSize := by decide
  by_cases hflag : (buf.getD 7 0).toNat / flagSpillBlkptr % 2 = 0
  · rw [DnodePhys.parseSpill, if_pos hflag] at hspill
    cases hspill
    exact ⟨rfl, fun p hp => (by cases hp), hflag⟩
  · rw [DnodePhys.parseSpill, if_neg hflag, DnodePhys.spillStart, if_neg hflag] at hspill
    have hlen : ((buf.drop (dnodeSize * (1 + (buf.getD 12 0).toNat) - bpSize)).take bpSize).length =
        bpSize := by
      rw [List.length_take, List.length_drop]
      omega
    cases hparse : BlkPtr.parse
        ((buf.drop (dnodeSize * (1 + (buf.getD 12 0).toNat) - bpSize)).take bpSize) .little with
    | error e =>
      rw [hparse] at hspill
      cases hspill
    | ok bp =>
      rw [hparse] at hspill
      cases hspill
      have hraw := raw_of_parse hlen hparse
      refine ⟨?_, fun p hp => ?_, ?_⟩
      · rw [Option.map_some, hraw, Option.mapM_some, hparse]
        rfl
      · cases hp
        rw [hraw, hlen]
      · exact (Nat.mod_two_eq_zero_or_one _).resolve_left hflag

theorem shr64_datablksz {d : DnodePhys} (h : d.Sized) :
    shr64 d.datablksz minBlockShift = d.datablkszsec := by
  rw [h.datablksz_eq, shr64_of_lt (by decide)]
  exact Nat.mul_div_cancel _ (by decide)

theorem specOf_wellFormed (h : DnodePhys.Parts buf .little blkptr spill)
    (hcount : 1 ≤ (buf.getD 3 0).toNat ∧ (buf.getD 3 0).toNat ≤ 3) :
    (specOf (DnodePhys.ofParts buf .little blkptr spill)).WellFormed := by
  obtain ⟨hraws, -, hpointer⟩ := pieces_spec h hcount.2
  obtain ⟨-, hspill, hflag⟩ := spill_spec h
  have hsized := DnodePhys.parse_sized (DnodePhys.parse_of_parts h)
  have hlength : (blkptr.map BlkPtr.raw).length = (buf.getD 3 0).toNat := by
    rw [hraws, pieces, List.length_map, List.length_range]
  have hbonus : (DnodePhys.ofParts buf .little blkptr spill).bonus.length ≤
      Endian.little.u16At buf 10 := List.length_take_le _ _
  have hbonuslen := Endian.u16At_lt .little buf 10
  refine
    { blkptrs := by
        show 1 ≤ (blkptr.map BlkPtr.raw).length ∧ (blkptr.map BlkPtr.raw).length ≤ 3
        rw [hlength]
        exact hcount
      pointer := fun p hp => hpointer p (by rw [← hraws]; exact hp)
      spill := hspill
      room := ?_
      bonus := Nat.lt_of_le_of_lt hbonus hbonuslen
      objectType := UInt8.toNat_lt _
      indblkshift := UInt8.toNat_lt _
      nlevels := UInt8.toNat_lt _
      bonusType := UInt8.toNat_lt _
      extraSlots := UInt8.toNat_lt _
      datablksz := by
        show shr64 (DnodePhys.ofParts buf .little blkptr spill).datablksz minBlockShift < 2 ^ 16
        rw [shr64_datablksz hsized]
        exact hsized.datablkszsec
      maxblkid := hsized.maxblkid }
  have hroom := h.bonus
  have hat : (specOf (DnodePhys.ofParts buf .little blkptr spill)).bonusAt =
      dnodeCoreSize + (buf.getD 3 0).toNat * bpSize := by
    rw [← hlength]
    rfl
  have hbit : (specOf (DnodePhys.ofParts buf .little blkptr spill)).flags / flagSpillBlkptr % 2 =
      (buf.getD 7 0).toNat / flagSpillBlkptr % 2 := by
    rw [DnodeSpec.flags_spill, hflag]
    show (if (spill.map BlkPtr.raw).isSome then 1 else 0) = _
    rw [Option.isSome_map]
  rw [Nat.min_eq_left hcount.2, DnodePhys.spillStart] at hroom
  rw [hat, DnodePhys.spillStart, hbit]
  exact Nat.le_trans (Nat.add_le_add_left hbonus _) hroom

end Parsed

/-- What the index keeps of a candidate that was parsed and could have been written parses to a
dnode of the same tree. -/
theorem candidate_survives {buf : List UInt8} {d : DnodePhys}
    (hparse : DnodePhys.parse buf .little = .ok d) (hfits : plausibleDnode d = .ok ()) :
    ∃ bytes d', dnodeBytes d = some bytes ∧ fromHex (toHex bytes) = .ok bytes ∧
      DnodePhys.parse bytes .little = .ok d' ∧ SameTree d d' := by
  obtain ⟨blkptr, spill, hparts, rfl⟩ := DnodePhys.parts_of_parse hparse
  obtain ⟨-, -, -, -, hcount⟩ := head_of_plausibleDnode hfits
  obtain ⟨hraws, hpieces, -⟩ := pieces_spec hparts hcount.2
  obtain ⟨hspill, -, -⟩ := spill_spec hparts
  have hblkptrs : (specOf (DnodePhys.ofParts buf .little blkptr spill)).blkptrs = pieces buf := hraws
  obtain ⟨bytes, d', hbuild, hread, hback⟩ :=
    DnodeSpec.parse_build (specOf_wellFormed hparts hcount) (by rw [hblkptrs]; exact hpieces) hspill
  refine ⟨bytes, d', hbuild, fromHex_toHex bytes, hread, ?_⟩
  exact
    { objectType := hback.objectType
      indblkshift := hback.indblkshift
      nlevels := hback.nlevels
      datablksz := by
        rw [DnodePhys.datablksz, hback.datablkszsec]
        show shl64 (shr64 (DnodePhys.ofParts buf .little blkptr spill).datablksz _) _ = _
        rw [shr64_datablksz (DnodePhys.parse_sized hparse)]
        rfl
      maxblkid := hback.maxblkid
      blkptr := hback.blkptr
      bonusType := hback.bonusType
      bonus := hback.bonus
      spill := hback.spill
      extraSlots := hback.extraSlots
      walks := fun reader endian =>
        locate_congr reader endian hback.indblkshift hback.nlevels hback.blkptr }

/-- A slot whose only content is a bonus of one byte. -/
theorem candidate_survives_bonusSlot : ∃ d bytes d',
    DnodePhys.parse bonusSlot .little = .ok d ∧ dnodeBytes d = some bytes ∧
      fromHex (toHex bytes) = .ok bytes ∧ DnodePhys.parse bytes .little = .ok d' ∧
      SameTree d d' := by
  have hall : (DnodePhys.parse bonusSlot .little).toOption.map plausibleDnode =
      some (.ok ()) := by decide +kernel
  cases hparse : DnodePhys.parse bonusSlot .little with
  | error e =>
    rw [hparse] at hall
    cases hall
  | ok d =>
    rw [hparse] at hall
    obtain ⟨bytes, d', hsurvives⟩ := candidate_survives hparse (Option.some.inj hall)
    exact ⟨d, bytes, d', rfl, hsurvives⟩

end Carve
end ZvolRescue
