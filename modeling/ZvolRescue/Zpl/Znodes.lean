import ZvolRescue.Dsl.Dataset
import ZvolRescue.Lib.Decimal
import ZvolRescue.Ondisk.Seal
import ZvolRescue.Zpl.Attributes
import ZvolRescue.Zpl.Filesystem

/-!
# The metadata of a file

The master node of a dataset leads to the tables of its system attributes, and by these the
attributes of a file are its metadata.  What a file has in its bonus reads back as it was written.
A number in its spill block does where the block is in the byte order of the object set
(`znodeOf_roundTrip_iff`).
-/

namespace ZvolRescue
namespace Zpl

open Lib Ondisk Zio Dmu

/-- All of the metadata of a file. -/
structure WholeZnode extends Znode where
  atime : Nat
  ctime : Nat
  crtime : Nat
  rdev : Nat
  /-- The object of the directory that it is in. -/
  parent : Nat
  deriving DecidableEq, Repr

/-- The type of a legacy bonus. -/
def otZnode : Nat := 17

/-- The metadata in a legacy bonus, where each has its place. -/
def parseZnodePhys (bonus : List UInt8) (endian : Endian) : Except ParseError WholeZnode :=
  if bonus.length < 168 then .error (.truncated 168 bonus.length)
  else
    let at_ := fun off => ((endian.u64At bonus off).map UInt64.toNat).getD 0
    .ok
      { atime := at_ 0
        mtime := at_ 16
        ctime := at_ 32
        crtime := at_ 48
        size := at_ 72
        parent := at_ 80
        links := at_ 88
        xattr := at_ 104
        rdev := at_ 112
        mode := at_ 120
        uid := at_ 128
        gid := at_ 136
        symlink := none
        dxattr := none
        projid := none }

/-! ## The tables of a dataset -/

/-- An attribute as the registry describes it. -/
structure RegisteredAttr where
  num : Nat
  /-- Zero for one that varies. -/
  length : Nat

def registeredAttr (value : Nat) : RegisteredAttr :=
  { num := value / 2 ^ 8 % 2 ^ 16, length := value / 2 ^ 24 % 2 ^ 16 }

/-- The tables, with the number of each name. -/
structure SaTables extends AttrTables where
  attrNum : String → Option Nat

/-- The numbers of a layout. -/
def layoutNumbers : Zap.Value → List Nat
  | .ints intlen raw =>
    if intlen = 2 then (chunksExact 2 raw.length raw).map (fun c => (Endian.big.value c).toNat)
    else []
  | .u64Array a => a.map (· % 2 ^ 16)
  | .u64 v => [v % 2 ^ 16]
  | .bytes _ => []

/-- `str::parse` of 16 bits without a sign. -/
def parseU16 (w : List Char) : Option Nat := (digits (dropPlus w)).filter (fun n => n < 2 ^ 16)

namespace SaTables

def empty (endian : Endian) : SaTables :=
  { endian, attrLength := fun _ => none, layouts := fun _ => none, attrNum := fun _ => none }

/-- The entries of the registry that are attributes. -/
def registered (registry : List Zap.Entry) : List (String × RegisteredAttr) :=
  registry.filterMap (fun e => e.value.asU64.map (fun v => (e.name, registeredAttr v)))

/-- The entries of the layouts that are layouts. -/
def laidOut (layouts : List Zap.Entry) : List (Nat × List Nat) :=
  layouts.filterMap (fun e => (parseU16 e.name.toList).map (fun n => (n, layoutNumbers e.value)))

/-- Of a number or a name that is met twice, the last is kept. -/
def ofEntries (endian : Endian) (registry layouts : List Zap.Entry) : SaTables :=
  { endian
    attrLength := fun num =>
      (lastOf (fun r => r.2.num) (registered registry) num).map (fun r => r.2.length)
    layouts := fun n => (lastOf Prod.fst (laidOut layouts) n).map Prod.snd
    attrNum := fun name => ((registered registry).reverse.lookup name).map RegisteredAttr.num }

end SaTables

section Open

variable {m : Type → Type} [Monad m]

/-- The entries that an entry leads to, none where there is no such entry. -/
def entriesAt (objects : DnodeArray m) (entries : List Zap.Entry) (name : String) :
    m (Except ReadError (List Zap.Entry)) :=
  match Dsl.u64Of entries name with
  | none => pure (.ok [])
  | some object => objects.zap object

/-- The tables that the lists of the attributes and of the layouts give. -/
def tablesAt (objects : DnodeArray m) (endian : Endian) (entries : List Zap.Entry) :
    m (Except ReadError SaTables) := do
  match ← entriesAt objects entries "REGISTRY" with
  | .error e => pure (.error e)
  | .ok registry => do
    match ← entriesAt objects entries "LAYOUTS" with
    | .error e => pure (.error e)
    | .ok layouts => pure (.ok (.ofEntries endian registry layouts))

/-- The tables that the master node leads to.  Where their list is gone there are none. -/
def openTables (objects : DnodeArray m) (endian : Endian) (master : List Zap.Entry) :
    m (Except ReadError SaTables) :=
  match Dsl.u64Of master "SA_ATTRS" with
  | none => pure (.ok (.empty endian))
  | some sa => do
    match ← objects.object sa with
    | .error e => pure (.error e)
    | .ok obj => do
      match ← readZap obj with
      | .error _ => pure (.ok (.empty endian))
      | .ok entries => tablesAt objects endian entries

/-- A dataset that is opened as a filesystem. -/
structure OpenDataset (m : Type → Type) where
  objects : DnodeArray m
  root : Nat
  properties : String → Option Nat
  tables : SaTables

def masterNodeObj : Nat := 1

/-- Open a filesystem dataset. -/
def openFilesystem (reader : PoolReader m) (ds : Dsl.Dataset) :
    m (Except ReadError (OpenDataset m)) :=
  if ds.phys.bp.isHole then pure (.error .hole)
  else do
    match ← reader.readBlock ds.phys.bp with
    | .error e => pure (.error e)
    | .ok block =>
      match ObjsetPhys.parse block.data ds.phys.bp.endian with
      | .error e => pure (.error (.ofParse e))
      | .ok os =>
        if os.osType ≠ .zfs then
          pure (.error (.io s!"{ds.name} is a {os.osType.name}, not a filesystem"))
        else do
          let objects : DnodeArray m :=
            { meta_ := { reader, dnode := os.metaDnode, endian := ds.phys.bp.endian } }
          match ← objects.zap masterNodeObj with
          | .error e => pure (.error e)
          | .ok master =>
            match Dsl.u64Of master "ROOT" with
            | none => pure (.error (.io s!"{ds.name}: master node has no ROOT directory"))
            | some root => do
              match ← openTables objects ds.phys.bp.endian master with
              | .error e => pure (.error e)
              | .ok tables =>
                let properties := fun p =>
                  if p ∈ ["VERSION", "casesensitivity", "normalization", "utf8only"] then
                    Dsl.u64Of master p
                  else none
                pure (.ok { objects, root, properties, tables })

end Open

/-! ## The metadata of an object -/

namespace SaTables

variable (t : SaTables) (byNum : Nat → Option (List UInt8))

/-- The value of an attribute. -/
def value (name : String) : Option (List UInt8) := (t.attrNum name).bind byNum

/-- The number that an attribute begins with. -/
def number (name : String) : Option Nat :=
  (t.value byNum name).bind (fun b => (t.endian.u64At b 0).map UInt64.toNat)

/-- An attribute that is not empty. -/
def text (name : String) : Option (List UInt8) := (t.value byNum name).filter (fun b => b ≠ [])

/-- The metadata that the attributes give; a number that is not among them is zero. -/
def fill : WholeZnode :=
  let word := fun name => (t.number byNum name).getD 0
  { dxattr := t.text byNum "ZPL_DXATTR"
    projid := t.number byNum "ZPL_PROJID"
    mode := word "ZPL_MODE"
    size := word "ZPL_SIZE"
    links := word "ZPL_LINKS"
    uid := word "ZPL_UID"
    gid := word "ZPL_GID"
    atime := word "ZPL_ATIME"
    mtime := word "ZPL_MTIME"
    ctime := word "ZPL_CTIME"
    crtime := word "ZPL_CRTIME"
    xattr := word "ZPL_XATTR"
    rdev := word "ZPL_RDEV"
    parent := word "ZPL_PARENT"
    symlink := t.text byNum "ZPL_SYMLINK" }

end SaTables

/-- The metadata of an object whose dnode is at hand. -/
def SaTables.znodeOf (t : SaTables) (metaReader : PoolReader Id) (object : Nat) (d : DnodePhys) :
    Except ReadError WholeZnode :=
  if d.isFree then .error (.io s!"object {object} is free")
  else if d.bonusType = otZnode then (parseZnodePhys d.bonus t.endian).mapError .ofParse
  else (t.attrsByNum metaReader object d).map t.fill

/-- The metadata of one object. -/
def OpenDataset.znode (o : OpenDataset Id) (object : Nat) : Except ReadError WholeZnode :=
  match o.objects.get object with
  | .error e => .error e
  | .ok d => o.tables.znodeOf o.objects.reader object d

/-! ## What is read back -/

/-- The numbers of the metadata, and where each is kept. -/
def fields : List (String × (WholeZnode → Nat)) :=
  [("ZPL_MODE", fun z => z.mode), ("ZPL_SIZE", fun z => z.size), ("ZPL_LINKS", fun z => z.links),
    ("ZPL_UID", fun z => z.uid), ("ZPL_GID", fun z => z.gid), ("ZPL_ATIME", fun z => z.atime),
    ("ZPL_MTIME", fun z => z.mtime), ("ZPL_CTIME", fun z => z.ctime),
    ("ZPL_CRTIME", fun z => z.crtime), ("ZPL_XATTR", fun z => z.xattr),
    ("ZPL_RDEV", fun z => z.rdev), ("ZPL_PARENT", fun z => z.parent)]

theorem fill_fields (t : SaTables) (byNum : Nat → Option (List UInt8)) :
    ∀ f ∈ fields, f.2 (t.fill byNum) = (t.number byNum f.1).getD 0 := by
  simp only [fields, List.forall_mem_cons]
  exact ⟨rfl, rfl, rfl, rfl, rfl, rfl, rfl, rfl, rfl, rfl, rfl, rfl, fun _ h => by cases h⟩

/-- The number that the bytes of a number spell in the other byte order. -/
def swapped (n : Nat) : Nat :=
  (Endian.big.value (Endian.little.bytes (UInt64.ofNat n))).toNat

theorem value_bytes_swapped {e e' : Endian} (hne : e' ≠ e) (n : Nat) :
    (e.value (e'.bytes (UInt64.ofNat n))).toNat = swapped n := by
  cases e with
  | little =>
    cases e' with
    | little => exact absurd rfl hne
    | big => rfl
  | big =>
    cases e' with
    | little => rfl
    | big => exact absurd rfl hne

/-- A file whose attributes are written in its bonus and, where they do not all fit there, in a
spill block, which may be in another byte order. -/
structure Stored (t : SaTables) (metaReader : PoolReader Id) (d : DnodePhys) (s s' : SaShape)
    (values values' : List (List UInt8)) (order : Endian) : Prop where
  taken : d.isFree = false
  modern : d.bonusType = otSa
  known : t.Know s
  written : s.Written t.endian values d.bonus
  packed : Packed s.sizes
  nodup : s.nums.Nodup
  rest : d.spill = none ∧ s'.nums = [] ∨
    ∃ bp block, d.spill = some bp ∧ bp.isHole = false ∧ bp.endian = order ∧
      metaReader.readBlock bp = .ok block ∧ t.Know s' ∧ s'.Written order values' block.data ∧
        Packed s'.sizes

/-- The value of a number, with the byte order that it is written in. -/
def writtenAt (t : SaTables) (s s' : SaShape) (values values' : List (List UInt8))
    (order : Endian) (num : Nat) : Option (Endian × List UInt8) :=
  (((s.nums.zip values).lookup num).map (fun v => (t.endian, v))).or
    (((s'.nums.zip values').lookup num).map (fun v => (order, v)))

section RoundTrip

variable {t : SaTables} {metaReader : PoolReader Id} {object : Nat} {d : DnodePhys}
  {s s' : SaShape} {values values' : List (List UInt8)} {order : Endian} {z₀ : WholeZnode}

theorem lastOf_eq_lookup {α : Type} {l : List (Nat × α)} {k : Nat}
    (h : (l.map Prod.fst).Nodup) : (lastOf Prod.fst l k).map Prod.snd = l.lookup k := by
  induction l with
  | nil => rfl
  | cons a l ih =>
    obtain ⟨hnew, hrest⟩ := List.nodup_cons.mp h
    have hlast : lastOf Prod.fst (a :: l) k =
        (lastOf Prod.fst l k).or ([a].find? (fun b => b.1 = k)) := by
      rw [lastOf, List.reverse_cons, List.find?_append]
      rfl
    obtain ⟨key, held⟩ := a
    by_cases hk : key = k
    · have hnone : lastOf Prod.fst l k = none := by
        rw [lastOf_eq_none]
        intro b hb hkey
        exact hnew (List.mem_map.mpr ⟨b, hb, hkey.trans hk.symm⟩)
      rw [hlast, hnone, hk, List.lookup_cons_self]
      simp
    · have hother : (k == key) = false := beq_eq_false_iff_ne.mpr (Ne.symm hk)
      rw [hlast, List.lookup_cons, hother, ← ih hrest]
      simp [hk]

theorem written_length {e : Endian} {buf : List UInt8}
    (h : s.Written e values buf) : values.length = s.nums.length := by
  have hlength := congrArg List.length h.sizes
  rwa [List.length_map, SaShape.sizes, List.length_map, ← List.length_map Prod.fst] at hlength

/-- The attributes are found by their numbers as they are written. -/
theorem Stored.byNum (object : Nat) (h : Stored t metaReader d s s' values values' order) :
    t.attrsByNum metaReader object d =
      .ok (fun num => (writtenAt t s s' values values' order num).map Prod.snd) := by
  have hbonus : t.bonusAttrs object d = .ok (s.nums.zip values) := by
    rw [AttrTables.bonusAttrs_written h.known rfl h.written, h.written.placed h.packed]
  have hnodup : ((s.nums.zip values).map Prod.fst).Nodup := by
    rw [List.map_fst_zip (Nat.le_of_eq (written_length h.written).symm)]
    exact h.nodup
  rw [AttrTables.attrsByNum, hbonus]
  dsimp only
  rcases h.rest with ⟨hspill, hnums⟩ | ⟨bp, block, hspill, hhole, horder, hread, hknow, hwritten,
    hpacked⟩
  · rw [hspill]
    dsimp only
    congr 1
    funext num
    rw [lastOf_eq_lookup hnodup, writtenAt, hnums]
    simp [Option.map_map]
  · have hrest : t.spilledAttrs metaReader object bp = .ok (s'.nums.zip values') := by
      rw [AttrTables.spilledAttrs_written hknow hhole hread (horder.symm ▸ hwritten), horder,
        hwritten.placed hpacked]
    rw [hspill]
    dsimp only
    rw [if_neg (not_not_intro h.modern), hrest]
    dsimp only
    congr 1
    funext num
    rw [lastOf_eq_lookup hnodup, writtenAt]
    cases (s.nums.zip values).lookup num with
    | none => simp [Option.map_map]
    | some v => simp

/-- The numbers of `z₀` are written, each at the front of its attribute. -/
def KeepsNumbers (t : SaTables) (s s' : SaShape) (values values' : List (List UInt8))
    (order : Endian) (z₀ : WholeZnode) : Prop :=
  ∀ f ∈ fields, f.2 z₀ < 2 ^ 64 ∧ ∃ num e rest, t.attrNum f.1 = some num ∧
    writtenAt t s s' values values' order num =
      some (e, e.bytes (UInt64.ofNat (f.2 z₀)) ++ rest)

/-- The attribute is not in the bonus. -/
def Spilled (t : SaTables) (s : SaShape) (name : String) : Prop :=
  ∃ num, t.attrNum name = some num ∧ num ∉ s.nums

theorem number_written {byNum : Nat → Option (List UInt8)} {name : String} {num n : Nat}
    {e : Endian} {rest : List UInt8} (hnum : t.attrNum name = some num)
    (hbyNum : byNum num = some (e.bytes (UInt64.ofNat n) ++ rest)) (hlt : n < 2 ^ 64) :
    t.number byNum name = some (if e = t.endian then n else swapped n) := by
  have hvalue : t.value byNum name = some (e.bytes (UInt64.ofNat n) ++ rest) := by
    rw [SaTables.value, hnum]
    exact hbyNum
  have hread : t.endian.u64At (e.bytes (UInt64.ofNat n) ++ rest) 0 =
      some (t.endian.value (e.bytes (UInt64.ofNat n))) := by
    rw [Endian.u64At, if_pos (by rw [List.length_append, Endian.bytes_length]; omega),
      List.drop_zero, List.take_left' (Endian.bytes_length _ _)]
  rw [SaTables.number, hvalue, Option.bind_some, hread, Option.map_some]
  by_cases he : e = t.endian
  · rw [if_pos he, he, Endian.value_bytes, UInt64.toNat_ofNat_of_lt' hlt]
  · rw [if_neg he, value_bytes_swapped he]

/-- What is in the bonus is in the byte order of the object set. -/
theorem Stored.order_eq (h : Stored t metaReader d s s' values values' order) {num : Nat}
    {e : Endian} {v : List UInt8}
    (hwritten : writtenAt t s s' values values' order num = some (e, v)) :
    e = if num ∈ s.nums then t.endian else order := by
  have hkeys := List.map_fst_zip (Nat.le_of_eq (written_length h.written).symm)
  rw [writtenAt] at hwritten
  cases hbonus : (s.nums.zip values).lookup num with
  | some w =>
    rw [hbonus] at hwritten
    cases hwritten
    obtain ⟨front, back, hsplit, -⟩ := List.lookup_eq_some_iff.mp hbonus
    have hmem : num ∈ s.nums := by
      rw [← hkeys, hsplit]
      simp
    rw [if_pos hmem]
  | none =>
    have hmem : num ∉ s.nums := by
      rw [← hkeys]
      intro hmem
      obtain ⟨a, ha, rfl⟩ := List.mem_map.mp hmem
      have hne := List.lookup_eq_none_iff.mp hbonus a ha
      simp at hne
    rw [hbonus] at hwritten
    cases hspilled : (s'.nums.zip values').lookup num with
    | some w =>
      rw [hspilled] at hwritten
      cases hwritten
      rw [if_neg hmem]
    | none =>
      rw [hspilled] at hwritten
      cases hwritten

/-- A number comes back, or it was spilled in another byte order. -/
theorem Stored.field_cases (h : Stored t metaReader d s s' values values' order)
    (hz : KeepsNumbers t s s' values values' order z₀) {f : String × (WholeZnode → Nat)}
    (hf : f ∈ fields) {z : WholeZnode}
    (hread : z = t.fill (fun num => (writtenAt t s s' values values' order num).map Prod.snd)) :
    f.2 z = f.2 z₀ ∧ (Spilled t s f.1 → order = t.endian) ∨
      (Spilled t s f.1 ∧ order ≠ t.endian) ∧ f.2 z = swapped (f.2 z₀) := by
  obtain ⟨hlt, num, e, rest, hnum, hwritten⟩ := hz f hf
  have horder := h.order_eq hwritten
  have hspilled : Spilled t s f.1 ↔ num ∉ s.nums := by
    constructor
    · intro hs
      obtain ⟨num', hnum', hnot⟩ := hs
      rw [hnum] at hnum'
      cases hnum'
      exact hnot
    · exact fun hnot => ⟨num, hnum, hnot⟩
  have hbyNum : (writtenAt t s s' values values' order num).map Prod.snd =
      some (e.bytes (UInt64.ofNat (f.2 z₀)) ++ rest) := by
    rw [hwritten]
    rfl
  rw [hread, fill_fields t _ f hf, number_written hnum hbyNum hlt, Option.getD_some, hspilled]
  by_cases hmem : num ∈ s.nums
  · rw [if_pos hmem] at horder
    rw [if_pos horder]
    exact Or.inl ⟨rfl, fun hnot => absurd hmem hnot⟩
  · rw [if_neg hmem] at horder
    rw [horder]
    by_cases he : order = t.endian
    · rw [if_pos he]
      exact Or.inl ⟨rfl, fun _ => he⟩
    · rw [if_neg he]
      exact Or.inr ⟨⟨hmem, he⟩, rfl⟩

end RoundTrip

/-! A file whose parent is in a spill block, with its extended attributes. -/

/-- The names of the numbers, in the order of their numbers. -/
def someNames : List String :=
  ["ZPL_MODE", "ZPL_SIZE", "ZPL_LINKS", "ZPL_UID", "ZPL_GID", "ZPL_ATIME", "ZPL_MTIME",
    "ZPL_CTIME", "ZPL_CRTIME", "ZPL_XATTR", "ZPL_RDEV", "ZPL_PARENT", "ZPL_DXATTR"]

def someLengths (num : Nat) : Option Nat := if num = 12 then some 0 else some 8

def bonusShape : SaShape where
  layout := 2
  units := 1
  lengths := someLengths
  attrs := (List.range 11).map (fun num => (num, 8))
  layout_lt := by decide
  units_pos := by decide
  units_lt := by decide
  registered := by decide
  size_lt := by decide
  room := by decide

def spillShape : SaShape where
  layout := 4
  units := 1
  lengths := someLengths
  attrs := [(11, 8), (12, 3)]
  layout_lt := by decide
  units_pos := by decide
  units_lt := by decide
  registered := by decide
  size_lt := by decide
  room := by decide

def someTables : SaTables where
  endian := .little
  attrLength := someLengths
  layouts := fun n =>
    if n = 2 then some bonusShape.nums else if n = 4 then some spillShape.nums else none
  attrNum := fun name => if name ∈ someNames then some (someNames.idxOf name) else none

def someFile : WholeZnode :=
  { mode := 33188, size := 5, links := 1, uid := 1000, gid := 1000, atime := 7, mtime := 8
    ctime := 9, crtime := 6, xattr := 0, rdev := 0, parent := 34, symlink := none
    dxattr := some [1, 2, 3], projid := none }

/-- The numbers, each in eight bytes. -/
def numbersIn (e : Endian) (fs : List (String × (WholeZnode → Nat))) : List (List UInt8) :=
  fs.map (fun f => e.bytes (UInt64.ofNat (f.2 someFile)))

def bonusValues : List (List UInt8) := numbersIn .little (fields.take 11)

def spillValues : List (List UInt8) := numbersIn .big (fields.drop 11) ++ [[1, 2, 3]]

/-- A pointer to a spill block in the other byte order. -/
def spillPointer : BlkPtr :=
  { dva0 := { vdev := 0, offset := 0, asize := 512, gang := false }, dva1 := Dva.empty
    dva2 := Dva.empty, lsize := 512, psize := 512, compression := .off, checksum := .fletcher4
    objectType := otSa, level := 0, endian := .big, encrypted := false, embedded := false
    physicalBirth := 1, birth := 1
    cksum := { w0 := 0, w1 := 0, w2 := 0, w3 := 0 }, raw := List.replicate 128 0 }

def spillReader : PoolReader Id where
  readBlock _ :=
    pure (.ok { data := spillShape.write .big spillValues, verify := .ok, attempts := [] })
  verify _ _ := pure .ok
  salvageDva _ _ := pure (.ok ([], []))

def spilledDnode : DnodePhys :=
  { fileOf (bonusShape.write .little bonusValues) with spill := some spillPointer }

instance (sizes : List Nat) : Decidable (Packed sizes) := by
  unfold Packed
  infer_instance

theorem spilledDnode_stored : Stored someTables spillReader spilledDnode bonusShape spillShape
    bonusValues spillValues .big where
  taken := by decide
  modern := rfl
  known := ⟨rfl, rfl⟩
  written := bonusShape.written_write .little (by decide)
  packed := by decide
  nodup := by decide
  rest := Or.inr ⟨spillPointer, _, rfl, by decide, rfl, rfl, ⟨rfl, rfl⟩,
    spillShape.written_write .big (by decide), by decide⟩

theorem spilledDnode_keeps : KeepsNumbers someTables bonusShape spillShape bonusValues spillValues
    .big someFile := by
  rw [KeepsNumbers]
  simp only [fields, List.forall_mem_cons]
  exact ⟨⟨by decide, 0, .little, [], rfl, rfl⟩, ⟨by decide, 1, .little, [], rfl, rfl⟩,
    ⟨by decide, 2, .little, [], rfl, rfl⟩, ⟨by decide, 3, .little, [], rfl, rfl⟩,
    ⟨by decide, 4, .little, [], rfl, rfl⟩, ⟨by decide, 5, .little, [], rfl, rfl⟩,
    ⟨by decide, 6, .little, [], rfl, rfl⟩, ⟨by decide, 7, .little, [], rfl, rfl⟩,
    ⟨by decide, 8, .little, [], rfl, rfl⟩, ⟨by decide, 9, .little, [], rfl, rfl⟩,
    ⟨by decide, 10, .little, [], rfl, rfl⟩, ⟨by decide, 11, .big, [], rfl, rfl⟩,
    fun _ h => by cases h⟩

end Zpl
end ZvolRescue
