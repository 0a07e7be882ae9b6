import ZvolRescue.Carve.Member
import ZvolRescue.Dmu.Space
import ZvolRescue.Lib.Ranked
import ZvolRescue.Ondisk.Dsl

/-!
# The dataset of a candidate

A candidate is given the GUID of a dataset whose data object has its first pointer where the
candidate has its own.  Only the address is compared.  Addresses are used again and embedded
pointers have none, so the name is right just where the newest dataset at the address is also of
the same birth (`named_truly_iff`).
-/

namespace ZvolRescue
namespace Carve
namespace Naming

open Lib Ondisk Zio Dmu Member

/-- The data object of a volume. -/
def zvolObj : Nat := 1

/-- The first pointer of an object that is no hole. -/
def firstLive (d : DnodePhys) : Option BlkPtr := d.blkptr.find? (fun b => !b.isHole)

section Source

variable (reader : PoolReader Id)

/-- A dataset that was met, and the first live pointer of its data object. -/
def dataOf (ds : Member.Hit) : Option (DslDatasetPhys × BlkPtr) :=
  match DslDatasetPhys.parse ds.dnode.bonus .little with
  | .error _ => none
  | .ok phys =>
    if phys.bp.isHole then none
    else
      match reader.readBlock phys.bp with
      | .error _ => none
      | .ok block =>
        match ObjsetPhys.parse block.data phys.bp.endian with
        | .error _ => none
        | .ok os =>
          let objs : DnodeArray Id :=
            { meta_ := { reader, dnode := os.metaDnode, endian := phys.bp.endian } }
          match objs.get zvolObj with
          | .error _ => none
          | .ok data => (firstLive data).map (fun theirs => (phys, theirs))

/-- The datasets with a pointer to this address, in the order they were met. -/
def atAddress (want : BlkPtr) (datasets : List Member.Hit) : List (DslDatasetPhys × BlkPtr) :=
  datasets.filterMap (fun ds => (dataOf reader ds).filter (fun d => d.2.dva0 = want.dva0))

/-- The GUID and the creation of the newest dataset at the candidate's address. -/
def nameFromDatasets (datasets : List Member.Hit) (candidate : Member.Hit) : Option (Nat × Nat) :=
  match firstLive candidate.dnode with
  | none => none
  | some want =>
    let found := (atAddress reader want datasets).map (fun d => (d.1.guid, d.1.creationTxg))
    (sortByKey (fun f => OrderDual.toDual f.2) found).head?

end Source

/-! ## Names that are right -/

/-- A pointer of the same kind, address and birth. -/
structure SamePointer (theirs want : BlkPtr) : Prop where
  embedded : theirs.embedded = want.embedded
  dva0 : theirs.dva0 = want.dva0
  birth : theirs.birth = want.birth

section Named

variable (reader : PoolReader Id) (datasets : List Member.Hit) (candidate : Member.Hit)

/-- A name that is given is that of a dataset with the candidate's pointer. -/
def NamedTruly : Prop :=
  ∀ guid txg, nameFromDatasets reader datasets candidate = some (guid, txg) →
    ∃ want, firstLive candidate.dnode = some want ∧
      ∃ ds ∈ datasets, ∃ phys theirs, dataOf reader ds = some (phys, theirs) ∧
        phys.guid = guid ∧ SamePointer theirs want

/-- The first of the newest datasets at the candidate's address, or another one there of its GUID,
has the candidate's pointer. -/
def NewestAgrees : Prop :=
  ∀ want, firstLive candidate.dnode = some want → ∀ pre d post,
    atAddress reader want datasets = pre ++ d :: post →
    (∀ e ∈ pre, e.1.creationTxg < d.1.creationTxg) →
    (∀ e ∈ post, e.1.creationTxg ≤ d.1.creationTxg) →
    ∃ e ∈ atAddress reader want datasets, e.1.guid = d.1.guid ∧ SamePointer e.2 want

variable {reader datasets candidate}

theorem mem_atAddress {want : BlkPtr} {d : DslDatasetPhys × BlkPtr} :
    d ∈ atAddress reader want datasets ↔
      ∃ ds ∈ datasets, dataOf reader ds = some d ∧ d.2.dva0 = want.dva0 := by
  simp only [atAddress, List.mem_filterMap, Option.filter_eq_some_iff, decide_eq_true_eq]

theorem nameFromDatasets_iff {want : BlkPtr} (hwant : firstLive candidate.dnode = some want)
    {guid txg : Nat} :
    nameFromDatasets reader datasets candidate = some (guid, txg) ↔
      ∃ pre d post, atAddress reader want datasets = pre ++ d :: post ∧
        (d.1.guid, d.1.creationTxg) = (guid, txg) ∧
        (∀ e ∈ pre, e.1.creationTxg < d.1.creationTxg) ∧
        ∀ e ∈ post, e.1.creationTxg ≤ d.1.creationTxg := by
  simp only [nameFromDatasets, hwant, sortByKey_map, List.head?_map, Option.map_eq_some_iff,
    head?_sortByKey_iff, OrderDual.toDual_lt_toDual, OrderDual.toDual_le_toDual]
  constructor
  · rintro ⟨d, ⟨pre, post, heq, hpre, hpost⟩, hd⟩
    exact ⟨pre, d, post, heq, hd, hpre, hpost⟩
  · rintro ⟨pre, d, post, heq, hd, hpre, hpost⟩
    exact ⟨d, ⟨pre, post, heq, hpre, hpost⟩, hd⟩

/-- A name is right if and only if the newest dataset at the address has the same pointer. -/
theorem named_truly_iff (reader : PoolReader Id) (datasets : List Member.Hit)
    (candidate : Member.Hit) :
    NamedTruly reader datasets candidate ↔ NewestAgrees reader datasets candidate := by
  constructor
  · intro h want hwant pre d post heq hpre hpost
    have hname := (nameFromDatasets_iff hwant).mpr ⟨pre, d, post, heq, rfl, hpre, hpost⟩
    obtain ⟨want', hwant', ds, hds, phys, theirs, hdata, hguid, hsame⟩ := h _ _ hname
    rw [hwant] at hwant'
    obtain rfl := Option.some.inj hwant'
    exact ⟨(phys, theirs), mem_atAddress.mpr ⟨ds, hds, hdata, hsame.dva0⟩, hguid, hsame⟩
  · intro h guid txg hname
    cases hwant : firstLive candidate.dnode with
    | none =>
      rw [nameFromDatasets, hwant] at hname
      cases hname
    | some want =>
      obtain ⟨pre, d, post, heq, hd, hpre, hpost⟩ := (nameFromDatasets_iff hwant).mp hname
      obtain ⟨e, he, hguid, hsame⟩ := h want hwant pre d post heq hpre hpost
      obtain ⟨ds, hds, hdata, -⟩ := mem_atAddress.mp he
      cases hd
      exact ⟨want, rfl, ds, hds, e.1, e.2, hdata, hguid, hsame⟩

/-! A dataset and a candidate whose data fits their pointers. -/

/-- The words of a pointer with its data in it. -/
def embeddedPointer (birth : Nat) : List Nat := [0, 0, 0, 0, 0, 0, 2 ^ 63 + 2 ^ 39, 0, 0, 0, birth]

/-- A hit on a dnode with this pointer and bonus. -/
def hitOf (objectType : Nat) (pointer : List Nat) (bonus : List UInt8) : Member.Hit :=
  { device := 0, offset := 0, slot := 0, found := .plaintext
    dnode :=
      { objectType, indblkshift := 17, nlevels := 1, nblkptr := 1, bonusType := 0, checksum := 2
        compress := 2, flags := 0, datablkszsec := 1, bonuslen := bonus.length, extraSlots := 0
        maxblkid := 0, used := 0
        blkptr :=
          (BlkPtr.parse (setLen (pointer.flatMap wordBytes) bpSize) .little).toOption.toList
        bonus, spill := none }
    misses := [] }

/-- A dataset of GUID 7, with its object set in the first sector. -/
def smallDataset : Member.Hit :=
  hitOf 16 [] (setLen (([0, 0, 0, 0, 0, 0, 0, 40, 0, 0, 0, 0, 0, 0, 7, 0] ++
    sectorPointer 1).flatMap wordBytes) dslDatasetMinLen)

/-- The object set in the first sector and its dnodes in the second. -/
def smallPool : PoolReader Id where
  readBlock bp :=
    if bp.dva0.offset = 512 then
      .ok { data := setLen (slotBytes 10 2 (sectorPointer 2) []) 1024, verify := .ok
            attempts := [] }
    else
      .ok { data := setLen [] dnodeSize ++ slotBytes 23 1 (embeddedPointer 60) [], verify := .ok
            attempts := [] }
  verify _ _ := Verify.ok
  salvageDva _ _ := .error .noMember

/-- The candidate is of another birth. -/
def smallCandidate : Member.Hit := hitOf 23 (embeddedPointer 50) []

/-- It is named by the dataset all the same. -/
theorem embedded_named :
    nameFromDatasets smallPool [smallDataset] smallCandidate = some (7, 40) ∧
      ¬ NamedTruly smallPool [smallDataset] smallCandidate := by
  have hname : nameFromDatasets smallPool [smallDataset] smallCandidate = some (7, 40) := by
    decide +kernel
  have hbirths : (firstLive smallCandidate.dnode).map BlkPtr.birth = some 50 ∧
      (dataOf smallPool smallDataset).map (fun d => d.2.birth) = some 60 := by
    decide +kernel
  refine ⟨hname, fun h => ?_⟩
  obtain ⟨want, hwant, ds, hds, phys, theirs, hdata, -, hsame⟩ := h 7 40 hname
  obtain rfl := List.mem_singleton.mp hds
  obtain ⟨hours, htheirs⟩ := hbirths
  rw [hwant] at hours
  rw [hdata] at htheirs
  have hbirth := hsame.birth
  rw [Option.some.inj hours, show theirs.birth = 60 from Option.some.inj htheirs] at hbirth
  exact absurd hbirth (by decide)

end Named

end Naming
end Carve
end ZvolRescue
