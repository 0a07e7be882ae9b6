import ZvolRescue.Dmu.Object
import ZvolRescue.Lib.Keyed
import ZvolRescue.Ondisk.SystemAttrs

/-!
# Attributes of a file

What does not fit the bonus buffer of a file's dnode is in a spill block, under a header and a
layout of its own.  The bonus is in the byte order of the object set, the spill block in that of its
pointer.
-/

namespace ZvolRescue
namespace Zpl

open Lib Ondisk Zio Dmu

/-- The type of a bonus of system attributes. -/
def otSa : Nat := 44

/-- How a dataset encodes its system attributes. -/
structure AttrTables where
  endian : Endian
  /-- The fixed length of each registered number, zero for one that varies. -/
  attrLength : Nat → Option Nat
  /-- The numbers of each layout, in order. -/
  layouts : Nat → Option (List Nat)

namespace AttrTables

variable (t : AttrTables)

/-- The attributes in the bonus of an object. -/
def bonusAttrs (object : Nat) (d : DnodePhys) : Except ReadError (List (Nat × List UInt8)) :=
  match parseSaHeader d.bonus t.endian with
  | .error e => .error (.ofParse e)
  | .ok header =>
    match t.layouts header.layout with
    | none =>
      .error (.io (s!"object {object}: system-attribute layout {header.layout} is not in this " ++
        "dataset's layouts"))
    | some layout => .ok (placeAttrs d.bonus header layout t.attrLength t.endian)

/-- The attributes in the spill block of an object. -/
def spilledAttrs (metaReader : PoolReader Id) (object : Nat) (bp : BlkPtr) :
    Except ReadError (List (Nat × List UInt8)) :=
  if bp.isHole then .ok []
  else
    match metaReader.readBlock bp with
    | .error e => .error (.io s!"object {object}: spill block: {e.text}")
    | .ok block =>
      match parseSaHeader block.data bp.endian with
      | .error e =>
        .error (.io (s!"object {object}: its spill block is not a system-attribute buffer: " ++
          e.text))
      | .ok header =>
        match t.layouts header.layout with
        | none =>
          .error (.io (s!"object {object}: spill-block layout {header.layout} is not in this " ++
            "dataset's layouts"))
        | some layout => .ok (placeAttrs block.data header layout t.attrLength bp.endian)

/-- The attributes of an object whose bonus is not a legacy one, by their numbers: the last of the
bonus, or else the first of the spill block. -/
def attrsByNum (metaReader : PoolReader Id) (object : Nat) (d : DnodePhys) :
    Except ReadError (Nat → Option (List UInt8)) :=
  match t.bonusAttrs object d with
  | .error e => .error e
  | .ok placed =>
    let byNum := fun num => (lastOf Prod.fst placed num).map Prod.snd
    match d.spill with
    | none => .ok byNum
    | some bp =>
      if d.bonusType ≠ otSa then .ok byNum
      else
        match t.spilledAttrs metaReader object bp with
        | .error e => .error e
        | .ok spilled => .ok (fun num => (byNum num).or (spilled.lookup num))

/-- The tables have the registry and the layout of a buffer. -/
def Know (s : SaShape) : Prop := t.attrLength = s.lengths ∧ t.layouts s.layout = some s.nums

variable {t} {s : SaShape} {e : Endian} {values : List (List UInt8)} {object : Nat}

theorem bonusAttrs_written {d : DnodePhys} (hknow : t.Know s) (he : t.endian = e)
    (hwritten : s.Written e values d.bonus) :
    t.bonusAttrs object d = .ok (placeAttrs d.bonus s.header s.nums s.lengths e) := by
  have hlayout : t.layouts s.header.layout = some s.nums := hknow.2
  rw [bonusAttrs, he, hwritten.parse]
  simp only [hlayout, hknow.1]

theorem spilledAttrs_written {metaReader : PoolReader Id} {bp : BlkPtr} {block : Block}
    (hknow : t.Know s) (hhole : bp.isHole = false) (hread : metaReader.readBlock bp = .ok block)
    (hwritten : s.Written bp.endian values block.data) :
    t.spilledAttrs metaReader object bp =
      .ok (placeAttrs block.data s.header s.nums s.lengths bp.endian) := by
  have hlayout : t.layouts s.header.layout = some s.nums := hknow.2
  rw [spilledAttrs, if_neg (by simp [hhole]), hread]
  simp only [hwritten.parse, hlayout, hknow.1]

/-- What the bonus has under a number, a spill block does not replace. -/
theorem attrsByNum_of_mem {metaReader : PoolReader Id} {d : DnodePhys}
    {placed : List (Nat × List UInt8)} {byNum : Nat → Option (List UInt8)} {num : Nat}
    {v : List UInt8} (hplaced : t.bonusAttrs object d = .ok placed)
    (hnodup : (placed.map Prod.fst).Nodup) (hmem : (num, v) ∈ placed)
    (h : t.attrsByNum metaReader object d = .ok byNum) : byNum num = some v := by
  have hlast : (lastOf Prod.fst placed num).map Prod.snd = some v := by
    obtain ⟨a, ha⟩ := exists_lastOf Prod.fst hmem
    obtain ⟨hin, hkey⟩ := mem_of_lastOf ha
    have heq : a = (num, v) := List.inj_on_of_nodup_map hnodup hin hmem hkey
    rw [ha, heq]
    rfl
  simp only [attrsByNum, hplaced] at h
  cases hspill : d.spill with
  | none =>
    rw [hspill] at h
    obtain rfl := Except.ok.inj h
    exact hlast
  | some bp =>
    simp only [hspill] at h
    split at h
    · obtain rfl := Except.ok.inj h
      exact hlast
    · cases hread : t.spilledAttrs metaReader object bp with
      | error e => simp [hread] at h
      | ok spilled =>
        rw [hread] at h
        obtain rfl := Except.ok.inj h
        exact Option.or_eq_some_iff.mpr (Or.inl hlast)

end AttrTables

/-! ## Where the attributes are -/

/-- Of every buffer of this shape, as a bonus and as a spill block, the attributes are what was
written. -/
def AsWritten (s : SaShape) : Prop :=
  ∀ (e : Endian) (values : List (List UInt8)) (buf : List UInt8), s.Written e values buf →
    ∀ t : AttrTables, t.Know s → ∀ object : Nat,
      (∀ d : DnodePhys, t.endian = e → d.bonus = buf →
        t.bonusAttrs object d = .ok (s.nums.zip values)) ∧
      ∀ (metaReader : PoolReader Id) (bp : BlkPtr) (block : Block), bp.isHole = false →
        bp.endian = e → metaReader.readBlock bp = .ok block → block.data = buf →
        t.spilledAttrs metaReader object bp = .ok (s.nums.zip values)

theorem asWritten_of_packed {s : SaShape} (h : Packed s.sizes) : AsWritten s := by
  intro e values buf hwritten t hknow object
  have hplaced := hwritten.placed h
  refine ⟨?_, ?_⟩
  · rintro d he rfl
    rw [AttrTables.bonusAttrs_written hknow he hwritten, hplaced]
  · rintro metaReader bp block hhole rfl hread rfl
    rw [AttrTables.spilledAttrs_written hknow hhole hread hwritten, hplaced]

/-- The tables of a dataset with one layout. -/
def tablesOf (s : SaShape) (e : Endian) : AttrTables where
  endian := e
  attrLength := s.lengths
  layouts n := if n = s.layout then some s.nums else none

theorem tablesOf_know (s : SaShape) (e : Endian) : (tablesOf s e).Know s := ⟨rfl, if_pos rfl⟩

/-- A file with this bonus. -/
def fileOf (bonus : List UInt8) : DnodePhys where
  objectType := 19
  indblkshift := 17
  nlevels := 1
  nblkptr := 1
  bonusType := otSa
  checksum := 7
  compress := 15
  flags := 0
  datablkszsec := 1
  bonuslen := bonus.length
  extraSlots := 0
  maxblkid := 0
  used := 0
  blkptr := []
  bonus := bonus
  spill := none

theorem packed_of_asWritten {s : SaShape} (h : AsWritten s) : Packed s.sizes := by
  let buf := s.write .little (ones s.sizes)
  have hwritten : s.Written .little (ones s.sizes) (fileOf buf).bonus :=
    s.written_write .little (map_length_ones s.sizes)
  have hknow := tablesOf_know s .little
  have hplaced := (h .little _ buf hwritten _ hknow 0).1 (fileOf buf) rfl rfl
  rw [AttrTables.bonusAttrs_written hknow rfl hwritten] at hplaced
  exact SaShape.packed_of_placed (Except.ok.inj hplaced)

/-- The attributes are found as they were written exactly where none of them has a value after it
and a length that is no multiple of eight. -/
theorem attrs_asWritten_iff (s : SaShape) : AsWritten s ↔ Packed s.sizes :=
  ⟨packed_of_asWritten, asWritten_of_packed⟩

/-! A symbolic link with packed extended attributes. -/

/-- The size of the file, the target of the link, the extended attributes. -/
def linkShape : SaShape where
  layout := 3
  units := 2
  lengths n := if n = 6 then some 8 else some 0
  attrs := [(6, 8), (17, 3), (18, 4)]
  layout_lt := by decide
  units_pos := by decide
  units_lt := by decide
  registered := by decide
  size_lt := by decide
  room := by decide

def linkValues : List (List UInt8) := [[3, 0, 0, 0, 0, 0, 0, 0], [97, 47, 98], [1, 2, 3, 4]]

def linkBonus : List UInt8 := linkShape.write .little linkValues

/-- The extended attributes are looked for in the gap after the target. -/
theorem link_misplaced :
    linkShape.Written .little linkValues linkBonus ∧
      (tablesOf linkShape .little).bonusAttrs 9 (fileOf linkBonus) =
        .ok [(6, [3, 0, 0, 0, 0, 0, 0, 0]), (17, [97, 47, 98]), (18, [0, 0, 0, 0])] ∧
      ¬ ∀ s : SaShape, AsWritten s := by
  have hwritten : linkShape.Written .little linkValues linkBonus :=
    linkShape.written_write .little (by decide)
  have hplaced : (tablesOf linkShape .little).bonusAttrs 9 (fileOf linkBonus) =
      .ok [(6, [3, 0, 0, 0, 0, 0, 0, 0]), (17, [97, 47, 98]), (18, [0, 0, 0, 0])] := by
    decide
  refine ⟨hwritten, hplaced, fun h => ?_⟩
  have hwrong := (h linkShape .little linkValues linkBonus hwritten _
    (tablesOf_know linkShape .little) 9).1 (fileOf linkBonus) rfl rfl
  rw [hplaced] at hwrong
  exact absurd hwrong (by decide)

end Zpl
end ZvolRescue
